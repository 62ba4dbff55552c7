import Hypern.Database.RequestContext

/-! What one session method can do to a context, and what it does to the global map.
`Held` is the invariant of a context; `Wf` is the invariant of the world, and every
later result about sessions is derived from the lemmas here. -/

namespace Hypern.Database

open DatabaseContextInner

namespace DatabaseContextInner

variable {α : Type} {c : DatabaseContextInner}

def Held (c : DatabaseContextInner) : Prop := c.inTransaction = true → c.connection.isSome = true

theorem held_new (requestId dbAlias : String) : Held (new requestId dbAlias) := by
  simp [Held, new]

theorem ensureConnection_cases (c : DatabaseContextInner) (pool : PoolGet) :
    (c.connection.isSome ∧ c.ensureConnection pool = (.ok (), c)) ∨
      (∃ e, c.ensureConnection pool = (.error e, c)) ∨
      ∃ conn, c.ensureConnection pool =
        (.ok (), { c with connection := some conn, state := .connected }) := by
  unfold ensureConnection
  split_ifs with h
  · exact .inl ⟨h, rfl⟩
  · cases pool with
    | notInitialized => exact .inr (.inl ⟨_, rfl⟩)
    | failed e => exact .inr (.inl ⟨_, rfl⟩)
    | acquired conn => exact .inr (.inr ⟨conn, rfl⟩)

theorem roundTrip_cases (c : DatabaseContextInner) (stmt : Stmt) (failed : String)
    (out : Except String α) (done : DatabaseContextInner → DatabaseContextInner) :
    (∃ e sent, c.roundTrip stmt failed out done = ⟨.error e, c, sent⟩) ∨
      ∃ conn a, c.connection = some conn ∧ out = .ok a ∧
        c.roundTrip stmt failed out done = ⟨.ok a, done c, [⟨conn, stmt, true⟩]⟩ := by
  unfold roundTrip
  cases hc : c.connection with
  | none => exact .inl ⟨_, _, rfl⟩
  | some conn =>
    cases out with
    | error e => exact .inl ⟨_, _, rfl⟩
    | ok a => exact .inr ⟨conn, a, rfl, rfl, rfl⟩

theorem roundTrip_ok {conn : Nat} (hc : c.connection = some conn) (stmt : Stmt) (failed : String)
    (a : α) (done : DatabaseContextInner → DatabaseContextInner) :
    c.roundTrip stmt failed (.ok a) done = ⟨.ok a, done c, [⟨conn, stmt, true⟩]⟩ := by
  simp only [roundTrip, hc]

structure SameName (c c' : DatabaseContextInner) : Prop where
  requestId : c'.requestId = c.requestId
  dbAlias : c'.dbAlias = c.dbAlias

theorem SameName.refl (c : DatabaseContextInner) : SameName c c := ⟨rfl, rfl⟩

theorem SameName.trans {a b c : DatabaseContextInner} (h : SameName a b) (h' : SameName b c) :
    SameName a c := ⟨h'.requestId.trans h.requestId, h'.dbAlias.trans h.dbAlias⟩

/-- A statement keeps the name and both flags of `finalize`, keeps `Held`, and moves
`inTransaction` to `after` when it succeeds. -/
structure Statement (c : DatabaseContextInner) (r : Reply α) (after : Bool) : Prop where
  name : SameName c r.ctx
  autoCommit : r.ctx.autoCommit = c.autoCommit
  hasError : r.ctx.hasError = c.hasError
  held : Held c → Held r.ctx
  inTransaction : r.ctx.inTransaction = if r.result.isOk then after else c.inTransaction

theorem statement_error (c : DatabaseContextInner) (e : String) (sent : List Sent) (after : Bool) :
    Statement c (⟨.error e, c, sent⟩ : Reply α) after :=
  ⟨.refl c, rfl, rfl, id, rfl⟩

theorem begin_statement (c : DatabaseContextInner) (pool : PoolGet) (out : Except String Unit) :
    Statement c (c.begin pool out) true := by
  unfold begin
  obtain ⟨_, h⟩ | ⟨e, h⟩ | ⟨conn, h⟩ := c.ensureConnection_cases pool <;> rw [h] <;> dsimp only
  · split_ifs with htx
    · exact statement_error _ _ _ _
    · obtain ⟨e, sent, h⟩ | ⟨conn, a, hc, -, h⟩ := roundTrip_cases c .begin
        "Failed to begin transaction: " out
        (fun c => { c with inTransaction := true, state := .inTransaction }) <;> rw [h]
      · exact statement_error _ _ _ _
      · exact ⟨⟨rfl, rfl⟩, rfl, rfl, fun _ _ => by simp [hc], rfl⟩
  · exact statement_error _ _ _ _
  · split_ifs with htx
    · exact ⟨⟨rfl, rfl⟩, rfl, rfl, fun _ _ => rfl, rfl⟩
    · obtain ⟨e, sent, h⟩ | ⟨conn', a, hc, -, h⟩ := roundTrip_cases
        { c with connection := some conn, state := .connected } .begin
        "Failed to begin transaction: " out
        (fun c => { c with inTransaction := true, state := .inTransaction }) <;> rw [h]
      · exact ⟨⟨rfl, rfl⟩, rfl, rfl, fun _ _ => rfl, rfl⟩
      · exact ⟨⟨rfl, rfl⟩, rfl, rfl, fun _ _ => rfl, rfl⟩

theorem roundTrip_closes (c : DatabaseContextInner) (stmt : Stmt) (failed : String)
    (out : Except String Unit) (st : ContextState) :
    Statement c (c.roundTrip stmt failed out
      fun c => { c with inTransaction := false, state := st }) false := by
  obtain ⟨e, sent, h⟩ | ⟨conn, a, _, -, h⟩ := roundTrip_cases c stmt failed out
    (fun c => { c with inTransaction := false, state := st }) <;> rw [h]
  · exact statement_error _ _ _ _
  · exact ⟨⟨rfl, rfl⟩, rfl, rfl, fun _ h => by simp at h, rfl⟩

theorem commit_statement (c : DatabaseContextInner) (out : Except String Unit) :
    Statement c (c.commit out) false := by
  unfold commit
  split_ifs
  · exact statement_error _ _ _ _
  · exact roundTrip_closes _ _ _ _ _

theorem rollback_statement (c : DatabaseContextInner) (out : Except String Unit) :
    Statement c (c.rollback out) false := by
  unfold rollback
  split_ifs
  · exact statement_error _ _ _ _
  · exact roundTrip_closes _ _ _ _ _

theorem runSql_statement (c : DatabaseContextInner) (text failed : String) (pool : PoolGet)
    (out : Except String α) : Statement c (c.runSql text failed pool out) c.inTransaction := by
  unfold runSql
  obtain ⟨_, h⟩ | ⟨e, h⟩ | ⟨conn, h⟩ := c.ensureConnection_cases pool <;> rw [h] <;> dsimp only
  · obtain ⟨e, sent, h⟩ | ⟨_, a, _, -, h⟩ := roundTrip_cases c (.sql text) failed out id <;> rw [h]
    · exact statement_error _ _ _ _
    · exact ⟨⟨rfl, rfl⟩, rfl, rfl, id, rfl⟩
  · exact statement_error _ _ _ _
  · obtain ⟨e, sent, h⟩ | ⟨_, a, _, -, h⟩ := roundTrip_cases
      { c with connection := some conn, state := .connected } (.sql text) failed out id <;> rw [h]
    all_goals exact ⟨⟨rfl, rfl⟩, rfl, rfl, fun _ _ => rfl, rfl⟩

theorem executeMany_statement (sql : String) (outs : List (PoolGet × Except String Nat))
    (c : DatabaseContextInner) (total : Nat) :
    Statement c (c.executeMany sql outs total) c.inTransaction := by
  induction outs generalizing c total with
  | nil => exact ⟨.refl c, rfl, rfl, id, rfl⟩
  | cons o outs ih =>
    obtain ⟨pool, out⟩ := o
    have h := c.runSql_statement sql "Execute failed: " pool out
    have htx : (c.execute sql pool out).ctx.inTransaction = c.inTransaction := by
      rw [execute, h.inTransaction, ite_self]
    rw [executeMany]
    cases hr : (c.execute sql pool out).result with
    | error e =>
      exact ⟨h.name, h.autoCommit, h.hasError, h.held, htx⟩
    | ok a =>
      have h' := ih (c.execute sql pool out).ctx (total + a)
      refine ⟨h.name.trans h'.name, h'.autoCommit.trans h.autoCommit,
        h'.hasError.trans h.hasError, h'.held ∘ h.held, ?_⟩
      rw [← htx]
      exact h'.inTransaction

theorem endTransaction_statement (c : DatabaseContextInner) (out : Except String Unit) :
    Statement c (c.endTransaction out) false := by
  unfold endTransaction
  split_ifs with htx
  · exact c.rollback_statement out
  · exact c.commit_statement out
  · exact c.rollback_statement out
  · exact ⟨.refl c, rfl, rfl, id, (Bool.eq_false_iff.mpr htx).trans (by rfl)⟩

theorem finalize_cases (c : DatabaseContextInner) (out : Except String Unit) :
    (∃ e, (c.endTransaction out).result = .error e ∧
      (c.finalize out).ctx = (c.endTransaction out).ctx) ∨
    ((c.endTransaction out).result = .ok () ∧
      (c.finalize out).ctx =
        { (c.endTransaction out).ctx with connection := none, state := .closed }) := by
  rw [finalize]
  rcases (c.endTransaction out) with ⟨e | _, ctx, sent⟩
  · exact .inl ⟨e, rfl, rfl⟩
  · exact .inr ⟨rfl, rfl⟩

theorem finalize_name (c : DatabaseContextInner) (out : Except String Unit) :
    SameName c (c.finalize out).ctx := by
  have h := (c.endTransaction_statement out).name
  obtain ⟨e, -, hctx⟩ | ⟨-, hctx⟩ := c.finalize_cases out
  · rw [hctx]
    exact h
  · rw [hctx]
    exact ⟨h.requestId, h.dbAlias⟩

theorem finalize_held (out : Except String Unit) (hc : Held c) : Held (c.finalize out).ctx := by
  -- a context whose transaction could not be ended keeps its connection
  have h := c.endTransaction_statement out
  obtain ⟨e, -, hctx⟩ | ⟨hok, hctx⟩ := c.finalize_cases out
  · rw [hctx]
    exact h.held hc
  · have hend : (c.endTransaction out).ctx.inTransaction = false := by
      rw [h.inTransaction, hok]
      rfl
    rw [hctx]
    exact fun htx => absurd (htx.symm.trans hend) Bool.noConfusion

theorem Statement.map {β : Type} {r : Reply α} {after : Bool} (h : Statement c r after) (f : α → β) :
    Statement c ⟨r.result.map f, r.ctx, r.sent⟩ after := by
  refine ⟨h.name, h.autoCommit, h.hasError, h.held, h.inTransaction.trans ?_⟩
  cases r.result <;> rfl

theorem Statement.withResult {β : Type} {r : Reply α} (h : Statement c r c.inTransaction)
    (res : Except String β) : Statement c ⟨res, r.ctx, r.sent⟩ c.inTransaction :=
  ⟨h.name, h.autoCommit, h.hasError, h.held,
    (h.inTransaction.trans (ite_self _)).trans (ite_self _).symm⟩

end DatabaseContextInner

namespace SessionOp

def after (op : SessionOp) (wasOpen : Bool) : Bool :=
  match op with
  | .begin .. => true
  | .commit _ | .rollback _ => false
  | _ => wasOpen

def opens (op : SessionOp) (ok wasOpen : Bool) : Bool := if ok then op.after wasOpen else wasOpen

def Transactional : SessionOp → Prop
  | .setAutoCommit _ | .setError => False
  | _ => True

variable (c : DatabaseContextInner) (op : SessionOp)

theorem apply_statement (h : op.Transactional) :
    Statement c (op.apply c) (op.after c.inTransaction) := by
  cases op with
  | begin pool out => exact (c.begin_statement pool out).map _
  | commit out => exact (c.commit_statement out).map _
  | rollback out => exact (c.rollback_statement out).map _
  | query sql pool out => exact (c.runSql_statement _ _ pool out).map _
  | queryOne sql pool out => exact (c.runSql_statement _ _ pool out).withResult _
  | execute sql pool out => exact (c.runSql_statement _ _ pool out).map _
  | executeMany sql outs => exact (executeMany_statement sql outs c 0).map _
  | setAutoCommit b => exact h.elim
  | setError => exact h.elim

theorem transactional_or (op : SessionOp) :
    op.Transactional ∨ (∃ b, op = .setAutoCommit b) ∨ op = .setError := by
  cases op <;> simp [Transactional]

theorem apply_name : SameName c (op.apply c).ctx := by
  obtain h | ⟨b, rfl⟩ | rfl := op.transactional_or
  · exact (apply_statement c op h).name
  · exact ⟨rfl, rfl⟩
  · exact ⟨rfl, rfl⟩

theorem apply_held (h : Held c) : Held (op.apply c).ctx := by
  obtain h' | ⟨b, rfl⟩ | rfl := op.transactional_or
  · exact (apply_statement c op h').held h
  · exact h
  · exact h

theorem apply_inTransaction :
    (op.apply c).ctx.inTransaction = op.opens (op.apply c).result.isOk c.inTransaction := by
  obtain h | ⟨b, rfl⟩ | rfl := op.transactional_or
  · exact (apply_statement c op h).inTransaction
  · rfl
  · rfl

end SessionOp

end Hypern.Database
