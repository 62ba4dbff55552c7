import Mathlib.Data.List.Induction
import Hypern.Lib.Run
import Hypern.Database.ContextInvariant

/-! The transaction state machine of one context, over runs of session methods and
`finalize`. What the server has seen is the log of statements, and the connection with an
open transaction is read off the log. -/

namespace Hypern.Database

open Lib DatabaseContextInner

/-- The methods of a session and `finalize`, each with the answers it gets. -/
inductive ContextOp
  | session (op : SessionOp)
  | finalize (out : Except String Unit)

def ContextOp.apply (op : ContextOp) (c : DatabaseContextInner) : Reply DbValue :=
  match op with
  | .session op => op.apply c
  | .finalize out => let r := c.finalize out; ⟨r.result.map fun _ => .none, r.ctx, r.sent⟩

/-- A context with all the statements it has sent. -/
structure Traced where
  ctx : DatabaseContextInner
  log : List Sent

/-- `COMMIT` or `ROLLBACK`. -/
def Stmt.ends : Stmt → Bool
  | .commit => true
  | .rollback => true
  | _ => false

def openStep (conn : Option Nat) (x : Sent) : Option Nat :=
  match x.ok, x.stmt with
  | true, .begin => some x.conn
  | true, .commit => none
  | true, .rollback => none
  | _, _ => conn

/-- The connection on which a `BEGIN` has succeeded and since then neither `COMMIT` nor
`ROLLBACK`. -/
def openOn (log : List Sent) : Option Nat := log.foldl openStep none

def beginStep (conn : Option Nat) (x : Sent) : Option Nat :=
  if x.ok = true ∧ x.stmt = .begin then some x.conn else conn

/-- The connection of the last `BEGIN` that succeeded. -/
def lastBegin (log : List Sent) : Option Nat := log.foldl beginStep none

namespace Traced

def new (requestId dbAlias : String) : Traced := ⟨.new requestId dbAlias, []⟩

def step (s : Traced) (op : ContextOp) : Option Traced :=
  some ⟨(op.apply s.ctx).ctx, s.log ++ (op.apply s.ctx).sent⟩

/-- The flag, the state and the connection fit together. -/
structure Consistent (s : Traced) : Prop where
  state : s.ctx.inTransaction = true ↔ s.ctx.state = .inTransaction
  connection : s.ctx.inTransaction = true →
    ∃ conn, s.ctx.connection = some conn ∧ lastBegin s.log = some conn

/-- What an operation sends: a transaction is ended only while it is active, and all user
statements of a transaction go to the connection that it was begun on. -/
structure SendsInOrder (s : Traced) (op : ContextOp) : Prop where
  ends : ∀ x ∈ (op.apply s.ctx).sent, x.stmt.ends = true → s.ctx.inTransaction = true
  sql : ∀ x ∈ (op.apply s.ctx).sent, ∀ text conn, x.stmt = .sql text →
    openOn s.log = some conn → x.conn = conn

end Traced

/-! ## The connection of a context -/

def PoolGet.conn? : PoolGet → Option Nat
  | .acquired conn => some conn
  | _ => none

namespace DatabaseContextInner

variable {α : Type} {c : DatabaseContextInner}

/-- The connection of the active transaction. -/
def open? (c : DatabaseContextInner) : Option Nat := if c.inTransaction then c.connection else none

theorem ensureConnection_of_some {conn : Nat} (h : c.connection = some conn) (pool : PoolGet) :
    c.ensureConnection pool = (.ok (), c) := by
  unfold ensureConnection
  rw [h]
  rfl

theorem ensureConnection_connection (c : DatabaseContextInner) (pool : PoolGet) :
    (c.ensureConnection pool).2.connection = c.connection.or pool.conn? := by
  cases hconn : c.connection with
  | some conn =>
    rw [ensureConnection_of_some hconn, hconn]
    rfl
  | none =>
    unfold ensureConnection
    rw [hconn]
    cases pool with
    | notInitialized => exact hconn
    | failed e => exact hconn
    | acquired conn => rfl

/-- Only a context without a connection is changed, and then it is connected. -/
theorem ensureConnection_ctx (c : DatabaseContextInner) (pool : PoolGet) :
    (c.ensureConnection pool).2 = c ∨
      c.connection = none ∧ ∃ conn, pool = .acquired conn ∧
        (c.ensureConnection pool).2 = { c with connection := some conn, state := .connected } := by
  unfold ensureConnection
  split_ifs with h
  · exact .inl rfl
  · cases pool with
    | notInitialized => exact .inl rfl
    | failed e => exact .inl rfl
    | acquired conn => exact .inr ⟨Option.not_isSome_iff_eq_none.mp h, conn, rfl, rfl⟩

/-- A statement that changes nothing but the log. -/
theorem roundTrip_id (c : DatabaseContextInner) (stmt : Stmt) (failed : String)
    (out : Except String α) : (c.roundTrip stmt failed out id).ctx = c := by
  unfold roundTrip
  cases c.connection with
  | none => rfl
  | some conn => cases out <;> rfl

theorem roundTrip_sent (c : DatabaseContextInner) (stmt : Stmt) (failed : String)
    (out : Except String α) (done : DatabaseContextInner → DatabaseContextInner) :
    ∀ x ∈ (c.roundTrip stmt failed out done).sent, c.connection = some x.conn ∧ x.stmt = stmt := by
  unfold roundTrip
  cases c.connection with
  | none => exact nofun
  | some conn =>
    cases out with
    | error e =>
      intro x hx
      rw [List.mem_singleton.mp hx]
      exact ⟨rfl, rfl⟩
    | ok a =>
      intro x hx
      rw [List.mem_singleton.mp hx]
      exact ⟨rfl, rfl⟩

theorem roundTrip_connection (c : DatabaseContextInner) (stmt : Stmt) (failed : String)
    (out : Except String α) {done : DatabaseContextInner → DatabaseContextInner}
    (hdone : ∀ c, (done c).connection = c.connection) :
    (c.roundTrip stmt failed out done).ctx.connection = c.connection := by
  obtain ⟨e, sent, h⟩ | ⟨conn, a, -, -, h⟩ := roundTrip_cases c stmt failed out done <;> rw [h]
  exact hdone c

/-- `commit` and `rollback` send their statement within a transaction only. -/
theorem guarded_spec (c : DatabaseContextInner) (refusal : String) (stmt : Stmt) (failed : String)
    (out : Except String Unit) {done : DatabaseContextInner → DatabaseContextInner}
    {reply : Reply Unit} (h : reply = if !c.inTransaction then ⟨.error refusal, c, []⟩
      else c.roundTrip stmt failed out done)
    (hdone : ∀ c, (done c).connection = c.connection) :
    reply.ctx.connection = c.connection ∧ ∀ x ∈ reply.sent,
      c.inTransaction = true ∧ c.connection = some x.conn ∧ x.stmt = stmt := by
  rw [h]
  split_ifs with htx
  · exact ⟨rfl, nofun⟩
  · rw [Bool.not_eq_true', Bool.not_eq_false] at htx
    refine ⟨roundTrip_connection c _ _ out hdone, fun x hx => ?_⟩
    exact ⟨htx, roundTrip_sent c _ _ out _ x hx⟩

theorem commit_spec (c : DatabaseContextInner) (out : Except String Unit) :
    (c.commit out).ctx.connection = c.connection ∧ ∀ x ∈ (c.commit out).sent,
      c.inTransaction = true ∧ c.connection = some x.conn ∧ x.stmt = .commit :=
  guarded_spec c _ .commit _ out rfl fun _ => rfl

theorem rollback_spec (c : DatabaseContextInner) (out : Except String Unit) :
    (c.rollback out).ctx.connection = c.connection ∧ ∀ x ∈ (c.rollback out).sent,
      c.inTransaction = true ∧ c.connection = some x.conn ∧ x.stmt = .rollback :=
  guarded_spec c _ .rollback _ out rfl fun _ => rfl

theorem endTransaction_sent (c : DatabaseContextInner) (out : Except String Unit) :
    ∀ x ∈ (c.endTransaction out).sent,
      c.inTransaction = true ∧ c.connection = some x.conn ∧ x.stmt.ends = true := by
  have hcommit : ∀ x ∈ (c.commit out).sent,
      c.inTransaction = true ∧ c.connection = some x.conn ∧ x.stmt.ends = true := by
    intro x hx
    obtain ⟨htx, hconn, hstmt⟩ := (c.commit_spec out).2 x hx
    exact ⟨htx, hconn, hstmt ▸ rfl⟩
  have hrollback : ∀ x ∈ (c.rollback out).sent,
      c.inTransaction = true ∧ c.connection = some x.conn ∧ x.stmt.ends = true := by
    intro x hx
    obtain ⟨htx, hconn, hstmt⟩ := (c.rollback_spec out).2 x hx
    exact ⟨htx, hconn, hstmt ▸ rfl⟩
  unfold endTransaction
  split_ifs
  · exact hrollback
  · exact hcommit
  · exact hrollback
  · exact nofun

theorem finalize_sent (c : DatabaseContextInner) (out : Except String Unit) :
    (c.finalize out).sent = (c.endTransaction out).sent := by
  unfold finalize
  rcases c.endTransaction out with ⟨e | _, ctx, sent⟩
  · rfl
  · rfl

theorem runSql_ctx (c : DatabaseContextInner) (text failed : String) (pool : PoolGet)
    (out : Except String α) :
    (c.runSql text failed pool out).ctx = (c.ensureConnection pool).2 := by
  unfold runSql
  rcases c.ensureConnection pool with ⟨e | _, c'⟩
  · rfl
  · exact roundTrip_id c' _ _ _

theorem runSql_sent (c : DatabaseContextInner) (text failed : String) (pool : PoolGet)
    (out : Except String α) : ∀ x ∈ (c.runSql text failed pool out).sent,
      c.connection.or pool.conn? = some x.conn ∧ x.stmt = .sql text := by
  have hconn := c.ensureConnection_connection pool
  unfold runSql
  rcases hens : c.ensureConnection pool with ⟨e | _, c'⟩
  · exact nofun
  · rw [hens] at hconn
    intro x hx
    obtain ⟨hx, hstmt⟩ := roundTrip_sent c' _ _ _ _ x hx
    exact ⟨hconn.symm.trans hx, hstmt⟩

theorem runSql_ok {text failed : String} {pool : PoolGet} {out : Except String α} {a : α}
    (h : (c.runSql text failed pool out).result = .ok a) :
    ∃ conn, (c.ensureConnection pool).2.connection = some conn := by
  unfold runSql at h
  rcases hens : c.ensureConnection pool with ⟨e | _, c'⟩
  · rw [hens] at h
    cases h
  · rw [hens] at h
    cases hconn : c'.connection with
    | some conn => exact ⟨conn, rfl⟩
    | none =>
      dsimp only [roundTrip] at h
      rw [hconn] at h
      cases h

/-- The pool answer that `execute_many` gets for its first row of parameters. -/
def firstPool : List (PoolGet × Except String Nat) → Option Nat
  | [] => none
  | (pool, _) :: _ => pool.conn?

theorem executeMany_connection (sql : String) (outs : List (PoolGet × Except String Nat))
    (c : DatabaseContextInner) (total : Nat) :
    (c.executeMany sql outs total).ctx.connection = c.connection.or (firstPool outs) := by
  induction outs generalizing c total with
  | nil => exact (Option.or_none).symm
  | cons o outs ih =>
    obtain ⟨pool, out⟩ := o
    have hctx : (c.execute sql pool out).ctx = (c.ensureConnection pool).2 :=
      runSql_ctx c sql _ pool out
    have hconn := c.ensureConnection_connection pool
    rw [executeMany]
    cases hr : (c.execute sql pool out).result with
    | error e => exact (congrArg connection hctx).trans hconn
    | ok a =>
      obtain ⟨conn, hsome⟩ := runSql_ok hr
      change ((c.execute sql pool out).ctx.executeMany sql outs (total + a)).ctx.connection = _
      rw [ih, hctx, hsome]
      exact hsome.symm.trans hconn

theorem executeMany_sent (sql : String) (outs : List (PoolGet × Except String Nat))
    (c : DatabaseContextInner) (total : Nat) : ∀ x ∈ (c.executeMany sql outs total).sent,
      c.connection.or (firstPool outs) = some x.conn ∧ x.stmt = .sql sql := by
  induction outs generalizing c total with
  | nil => exact nofun
  | cons o outs ih =>
    obtain ⟨pool, out⟩ := o
    have hfirst := runSql_sent c sql "Execute failed: " pool out
    have hctx : (c.execute sql pool out).ctx = (c.ensureConnection pool).2 :=
      runSql_ctx c sql _ pool out
    have hconn := c.ensureConnection_connection pool
    rw [executeMany]
    cases hr : (c.execute sql pool out).result with
    | error e => exact hfirst
    | ok a =>
      intro x hx
      rcases List.mem_append.mp hx with hx | hx
      · exact hfirst x hx
      · obtain ⟨conn, hsome⟩ := runSql_ok hr
        obtain ⟨hx, hstmt⟩ := ih _ _ x hx
        rw [hctx, hsome] at hx
        exact ⟨(hconn.symm.trans hsome).trans hx, hstmt⟩

theorem begin_connection (c : DatabaseContextInner) (pool : PoolGet) (out : Except String Unit) :
    (c.begin pool out).ctx.connection = c.connection.or pool.conn? := by
  have hconn := c.ensureConnection_connection pool
  unfold begin
  rcases hens : c.ensureConnection pool with ⟨e | _, c'⟩ <;> rw [hens] at hconn
  · exact hconn
  · dsimp only
    split_ifs with htx
    · exact hconn
    · obtain ⟨e, sent, h⟩ | ⟨conn, a, -, -, h⟩ := roundTrip_cases c' .begin
        "Failed to begin transaction: " out
        (fun c => { c with inTransaction := true, state := .inTransaction }) <;> rw [h] <;>
        exact hconn

theorem begin_sent (c : DatabaseContextInner) (pool : PoolGet) (out : Except String Unit) :
    ∀ x ∈ (c.begin pool out).sent,
      c.connection.or pool.conn? = some x.conn ∧ x.stmt = .begin := by
  have hconn := c.ensureConnection_connection pool
  unfold begin
  rcases hens : c.ensureConnection pool with ⟨e | _, c'⟩ <;> rw [hens] at hconn
  · exact nofun
  · dsimp only
    split_ifs with htx
    · exact nofun
    · intro x hx
      obtain ⟨hx, hstmt⟩ := roundTrip_sent c' _ _ _ _ x hx
      exact ⟨hconn.symm.trans hx, hstmt⟩

/-! ## The state machine -/

/-- The flag, the state and the connection fit together, the log left aside. -/
structure Machine (c : DatabaseContextInner) : Prop where
  state : c.inTransaction = true ↔ c.state = .inTransaction
  held : Held c

theorem machine_new (requestId dbAlias : String) : Machine (new requestId dbAlias) :=
  ⟨iff_of_false nofun nofun, held_new requestId dbAlias⟩

theorem machine_idle (htx : c.inTransaction = false) (hst : c.state ≠ .inTransaction) :
    Machine c := by
  refine ⟨iff_of_false ?_ hst, fun h => ?_⟩
  · rw [htx]
    exact Bool.false_ne_true
  · rw [htx] at h
    cases h

/-- A reply leads to such a context, and its statements say what it did to the transaction. -/
structure Moves (c : DatabaseContextInner) (r : Reply α) : Prop where
  machine : Machine r.ctx
  log : r.sent.foldl openStep c.open? = r.ctx.open?

theorem foldl_openStep_sql (conn : Option Nat) (l : List Sent)
    (h : ∀ x ∈ l, ∃ text, x.stmt = .sql text) : l.foldl openStep conn = conn := by
  induction l with
  | nil => rfl
  | cons x l ih =>
    rw [List.forall_mem_cons] at h
    obtain ⟨⟨text, htext⟩, hl⟩ := h
    rw [List.foldl_cons]
    have hx : openStep conn x = conn := by
      unfold openStep
      rw [htext]
      cases x.ok <;> rfl
    rw [hx, ih hl]

theorem open?_of_idle (h : c.inTransaction = false) : c.open? = none := by
  unfold open?
  rw [h]
  rfl

/-- A connection is acquired only while no transaction is active. -/
theorem Machine.ensureConnection (hc : Machine c) (pool : PoolGet) :
    Machine (c.ensureConnection pool).2 ∧ (c.ensureConnection pool).2.open? = c.open? := by
  rcases c.ensureConnection_ctx pool with h | ⟨hnone, conn, -, h⟩
  · rw [h]
    exact ⟨hc, rfl⟩
  · have htx : c.inTransaction = false := by
      rw [← Bool.not_eq_true]
      intro htx
      have hsome := hc.held htx
      rw [hnone] at hsome
      cases hsome
    rw [h, open?_of_idle htx]
    exact ⟨machine_idle htx nofun, open?_of_idle htx⟩

/-- A round trip either changes nothing and says so, or does what it is for. -/
theorem roundTrip_log (c : DatabaseContextInner) (stmt : Stmt) (failed : String)
    (out : Except String α) (done : DatabaseContextInner → DatabaseContextInner) :
    ((c.roundTrip stmt failed out done).ctx = c ∧
      ∀ conn, (c.roundTrip stmt failed out done).sent.foldl openStep conn = conn) ∨
    ∃ conn, c.connection = some conn ∧ (c.roundTrip stmt failed out done).ctx = done c ∧
      (c.roundTrip stmt failed out done).sent = [⟨conn, stmt, true⟩] := by
  unfold roundTrip
  cases hconn : c.connection with
  | none => exact .inl ⟨rfl, fun _ => rfl⟩
  | some conn =>
    cases out with
    | error e => exact .inl ⟨rfl, fun _ => rfl⟩
    | ok a => exact .inr ⟨conn, rfl, rfl, rfl⟩

theorem Machine.begin (hc : Machine c) (pool : PoolGet) (out : Except String Unit) :
    Moves c (c.begin pool out) := by
  obtain ⟨hmachine, hopen⟩ := hc.ensureConnection pool
  unfold DatabaseContextInner.begin
  rcases hens : c.ensureConnection pool with ⟨e | _, c'⟩ <;> rw [hens] at hmachine hopen
  · exact ⟨hmachine, hopen.symm⟩
  · dsimp only
    split_ifs with htx
    · exact ⟨hmachine, hopen.symm⟩
    · rcases roundTrip_log c' .begin "Failed to begin transaction: " out
        (fun c => { c with inTransaction := true, state := .inTransaction }) with
        ⟨hctx, hlog⟩ | ⟨conn, hconn, hctx, hsent⟩
      · refine ⟨?_, ?_⟩
        · rw [hctx]
          exact hmachine
        · rw [hctx, hlog]
          exact hopen.symm
      · refine ⟨?_, ?_⟩
        · rw [hctx]
          exact ⟨iff_of_true rfl rfl, fun _ => Option.isSome_iff_exists.mpr ⟨conn, hconn⟩⟩
        · rw [hctx, hsent]
          exact hconn.symm

/-- `COMMIT` and `ROLLBACK`. -/
theorem Machine.roundTrip_ends (hc : Machine c) {stmt : Stmt} (hends : stmt.ends = true)
    (failed : String) (out : Except String Unit) {st : ContextState} (hst : st ≠ .inTransaction) :
    Moves c (c.roundTrip stmt failed out fun c => { c with inTransaction := false, state := st }) := by
  rcases roundTrip_log c stmt failed out
    (fun c => { c with inTransaction := false, state := st }) with
    ⟨hctx, hlog⟩ | ⟨conn, hconn, hctx, hsent⟩
  · refine ⟨?_, ?_⟩
    · rw [hctx]
      exact hc
    · rw [hctx, hlog]
  · refine ⟨?_, ?_⟩
    · rw [hctx]
      exact machine_idle rfl hst
    · rw [hctx, hsent]
      cases stmt with
      | commit => rfl
      | rollback => rfl
      | begin | sql => cases hends

theorem Machine.still (hc : Machine c) (res : Except String α) : Moves c ⟨res, c, []⟩ := ⟨hc, rfl⟩

theorem Machine.commit (hc : Machine c) (out : Except String Unit) : Moves c (c.commit out) := by
  unfold DatabaseContextInner.commit
  split_ifs
  · exact hc.still _
  · exact hc.roundTrip_ends rfl _ out nofun

theorem Machine.rollback (hc : Machine c) (out : Except String Unit) :
    Moves c (c.rollback out) := by
  unfold DatabaseContextInner.rollback
  split_ifs
  · exact hc.still _
  · exact hc.roundTrip_ends rfl _ out nofun

theorem Machine.runSql (hc : Machine c) (text failed : String) (pool : PoolGet)
    (out : Except String α) : Moves c (c.runSql text failed pool out) := by
  obtain ⟨hmachine, hopen⟩ := hc.ensureConnection pool
  refine ⟨?_, ?_⟩
  · rw [runSql_ctx]
    exact hmachine
  · rw [runSql_ctx, hopen]
    exact foldl_openStep_sql _ _ fun x hx => ⟨text, (runSql_sent c text failed pool out x hx).2⟩

theorem Machine.executeMany (sql : String) (outs : List (PoolGet × Except String Nat))
    {c : DatabaseContextInner} (hc : Machine c) (total : Nat) :
    Moves c (c.executeMany sql outs total) := by
  induction outs generalizing c total with
  | nil => exact hc.still _
  | cons o outs ih =>
    obtain ⟨pool, out⟩ := o
    have hfirst : Moves c (c.execute sql pool out) := hc.runSql sql _ pool out
    rw [DatabaseContextInner.executeMany]
    cases hr : (c.execute sql pool out).result with
    | error e => exact ⟨hfirst.machine, hfirst.log⟩
    | ok a =>
      have hrest := ih hfirst.machine (total + a)
      refine ⟨hrest.machine, ?_⟩
      change ((c.execute sql pool out).sent ++ _).foldl openStep _ = _
      rw [List.foldl_append, hfirst.log]
      exact hrest.log

theorem Machine.endTransaction (hc : Machine c) (out : Except String Unit) :
    Moves c (c.endTransaction out) := by
  unfold DatabaseContextInner.endTransaction
  split_ifs
  · exact hc.rollback out
  · exact hc.commit out
  · exact hc.rollback out
  · exact hc.still _

theorem Machine.finalize (hc : Machine c) (out : Except String Unit) :
    Moves c (c.finalize out) := by
  have hend := hc.endTransaction out
  have htx := (c.endTransaction_statement out).inTransaction
  unfold DatabaseContextInner.finalize
  rcases hr : c.endTransaction out with ⟨e | _, ctx, sent⟩ <;> rw [hr] at hend htx
  · exact ⟨hend.machine, hend.log⟩
  · have hclosed : ({ ctx with connection := none, state := .closed } :
        DatabaseContextInner).inTransaction = false := htx
    refine ⟨machine_idle hclosed nofun, ?_⟩
    rw [open?_of_idle hclosed]
    exact hend.log.trans (open?_of_idle htx)

theorem Moves.withResult {β : Type} {r : Reply α} (h : Moves c r) (res : Except String β) :
    Moves c ⟨res, r.ctx, r.sent⟩ := ⟨h.machine, h.log⟩

end DatabaseContextInner

theorem SessionOp.apply_moves {c : DatabaseContextInner} (hc : Machine c) (op : SessionOp) :
    Moves c (op.apply c) := by
  cases op with
  | begin pool out => exact (hc.begin pool out).withResult _
  | commit out => exact (hc.commit out).withResult _
  | rollback out => exact (hc.rollback out).withResult _
  | query sql pool out => exact (hc.runSql sql _ pool out).withResult _
  | queryOne sql pool out => exact (hc.runSql sql _ pool out).withResult _
  | execute sql pool out => exact (hc.runSql sql _ pool out).withResult _
  | executeMany sql outs => exact (Machine.executeMany sql outs hc 0).withResult _
  | setAutoCommit b => exact ⟨⟨hc.state, hc.held⟩, rfl⟩
  | setError => exact ⟨⟨hc.state, hc.held⟩, rfl⟩

theorem ContextOp.apply_moves {c : DatabaseContextInner} (hc : Machine c) (op : ContextOp) :
    Moves c (op.apply c) := by
  cases op with
  | session op => exact op.apply_moves hc
  | finalize out => exact (hc.finalize out).withResult _

/-! ## What is sent -/

namespace SessionOp

/-- The connection that the pool gives to a method that finds none. -/
def acquires : SessionOp → Option Nat
  | .begin pool _ => pool.conn?
  | .query _ pool _ => pool.conn?
  | .queryOne _ pool _ => pool.conn?
  | .execute _ pool _ => pool.conn?
  | .executeMany _ outs => firstPool outs
  | _ => none

variable (c : DatabaseContextInner) (op : SessionOp)

/-- A held connection is kept, and one is acquired where there is none. -/
theorem apply_connection : (op.apply c).ctx.connection = c.connection.or op.acquires := by
  cases op with
  | begin pool out => exact c.begin_connection pool out
  | commit out => exact (c.commit_spec out).1.trans Option.or_none.symm
  | rollback out => exact (c.rollback_spec out).1.trans Option.or_none.symm
  | query sql pool out =>
    exact (congrArg connection (runSql_ctx c sql _ pool out)).trans
      (c.ensureConnection_connection pool)
  | queryOne sql pool out =>
    exact (congrArg connection (runSql_ctx c sql _ pool out)).trans
      (c.ensureConnection_connection pool)
  | execute sql pool out =>
    exact (congrArg connection (runSql_ctx c sql _ pool out)).trans
      (c.ensureConnection_connection pool)
  | executeMany sql outs => exact executeMany_connection sql outs c 0
  | setAutoCommit b => exact Option.or_none.symm
  | setError => exact Option.or_none.symm

theorem apply_sent : ∀ x ∈ (op.apply c).sent, c.connection.or op.acquires = some x.conn ∧
    (x.stmt.ends = true → c.inTransaction = true) := by
  have hkept : ∀ x : Sent, c.connection = some x.conn → c.connection.or none = some x.conn :=
    fun x hx => Option.or_none.trans hx
  have hsql : ∀ (x : Sent) (text : String), x.stmt = .sql text →
      x.stmt.ends = true → c.inTransaction = true := by
    intro x text hstmt hends
    rw [hstmt] at hends
    cases hends
  intro x hx
  cases op with
  | begin pool out =>
    obtain ⟨hconn, hstmt⟩ := c.begin_sent pool out x hx
    refine ⟨hconn, fun hends => ?_⟩
    rw [hstmt] at hends
    cases hends
  | commit out =>
    obtain ⟨htx, hconn, -⟩ := (c.commit_spec out).2 x hx
    exact ⟨hkept x hconn, fun _ => htx⟩
  | rollback out =>
    obtain ⟨htx, hconn, -⟩ := (c.rollback_spec out).2 x hx
    exact ⟨hkept x hconn, fun _ => htx⟩
  | query sql pool out =>
    obtain ⟨hconn, hstmt⟩ := c.runSql_sent sql _ pool out x hx
    exact ⟨hconn, hsql x sql hstmt⟩
  | queryOne sql pool out =>
    obtain ⟨hconn, hstmt⟩ := c.runSql_sent sql _ pool out x hx
    exact ⟨hconn, hsql x sql hstmt⟩
  | execute sql pool out =>
    obtain ⟨hconn, hstmt⟩ := c.runSql_sent sql _ pool out x hx
    exact ⟨hconn, hsql x sql hstmt⟩
  | executeMany sql outs =>
    obtain ⟨hconn, hstmt⟩ := executeMany_sent sql outs c 0 x hx
    exact ⟨hconn, hsql x sql hstmt⟩
  | setAutoCommit b => cases hx
  | setError => cases hx

end SessionOp

theorem ContextOp.apply_sent (c : DatabaseContextInner) (op : ContextOp) :
    ∀ x ∈ (op.apply c).sent, (∀ conn, c.connection = some conn → x.conn = conn) ∧
      (x.stmt.ends = true → c.inTransaction = true) := by
  intro x hx
  cases op with
  | session op =>
    obtain ⟨hconn, hends⟩ := op.apply_sent c x hx
    refine ⟨fun conn hheld => ?_, hends⟩
    rw [hheld] at hconn
    exact (Option.some.inj hconn).symm
  | finalize out =>
    change x ∈ (c.finalize out).sent at hx
    rw [finalize_sent] at hx
    obtain ⟨htx, hconn, -⟩ := c.endTransaction_sent out x hx
    exact ⟨fun conn hheld => Option.some.inj (hconn.symm.trans hheld), fun _ => htx⟩

/-! ## Runs -/

/-- A transaction that is still open was begun by the last `BEGIN` that succeeded. -/
theorem lastBegin_eq_of_openOn {log : List Sent} {conn : Nat} (h : openOn log = some conn) :
    lastBegin log = some conn := by
  induction log using List.reverseRecOn with
  | nil => cases h
  | append_singleton log x ih =>
    unfold openOn at h ih
    unfold lastBegin at ih ⊢
    rw [List.foldl_concat] at h ⊢
    unfold openStep at h
    unfold beginStep
    split at h
    · rename_i hok hstmt
      rw [if_pos ⟨hok, hstmt⟩]
      exact h
    · cases h
    · cases h
    · rename_i hnot _ _
      rw [if_neg (fun hbegin => hnot hbegin.1 hbegin.2)]
      exact ih h

namespace Traced

/-- What a run keeps: the log tells which transaction is active. -/
structure Inv (s : Traced) : Prop where
  machine : Machine s.ctx
  log : openOn s.log = s.ctx.open?

theorem inv_new (requestId dbAlias : String) : Inv (new requestId dbAlias) :=
  ⟨machine_new requestId dbAlias, rfl⟩

theorem inv_step {s s' : Traced} {op : ContextOp} (h : Inv s) (hstep : step s op = some s') :
    Inv s' := by
  obtain rfl := Option.some.inj hstep
  have hmoves := op.apply_moves h.machine
  refine ⟨hmoves.machine, ?_⟩
  unfold openOn
  rw [List.foldl_append]
  change (op.apply s.ctx).sent.foldl openStep (openOn s.log) = _
  rw [h.log]
  exact hmoves.log

theorem Inv.consistent {s : Traced} (h : Inv s) : Consistent s := by
  refine ⟨h.machine.state, fun htx => ?_⟩
  obtain ⟨conn, hconn⟩ := Option.isSome_iff_exists.mp (h.machine.held htx)
  refine ⟨conn, hconn, lastBegin_eq_of_openOn (h.log.trans ?_)⟩
  unfold open?
  rw [if_pos htx]
  exact hconn

theorem Inv.sendsInOrder {s : Traced} (h : Inv s) (op : ContextOp) : SendsInOrder s op := by
  refine ⟨fun x hx => (op.apply_sent s.ctx x hx).2, fun x hx text conn _ hopen => ?_⟩
  refine (op.apply_sent s.ctx x hx).1 conn ?_
  rw [h.log] at hopen
  unfold open? at hopen
  split_ifs at hopen
  exact hopen

theorem transaction_machine (requestId dbAlias : String) (ops : List ContextOp) :
    Always step Consistent (new requestId dbAlias) ops ∧
      Along step SendsInOrder (new requestId dbAlias) ops := by
  have hall : Along step (fun _ _ => True) (new requestId dbAlias) ops :=
    .of_forall (fun _ _ _ => trivial) _
  refine ⟨?_, ?_⟩
  · exact hall.always (fun _ _ _ h _ hstep => inv_step h hstep) (fun _ => Inv.consistent)
      (inv_new requestId dbAlias)
  · exact hall.strengthen (fun _ _ _ h _ hstep => inv_step h hstep)
      (fun _ op h _ => h.sendsInOrder op) (inv_new requestId dbAlias)

end Traced

end Hypern.Database
