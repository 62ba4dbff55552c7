import Hypern.App.WrapHandler
import Hypern.Database.World
import Mathlib.Data.List.Induction

/-! What the end of a request does to the transactions its code left open. The calls
that user code makes on its sessions are replayed on the trace, without looking into any
context; `Tracked` ties that replay to the contexts of the request. -/

namespace Hypern.Application

open Lib Python Database DbWorld
open DatabaseContextInner (Held Statement)

/-! ## The calls a request made -/

def touched (t : List Event) (a : String) : Bool :=
  t.any fun
    | .db a' _ _ => a' == a
    | _ => false

def openStep (a : String) (wasOpen : Bool) : Event → Bool
  | .db a' (some op) ok => if a' = a then op.opens ok wasOpen else wasOpen
  | _ => wasOpen

/-- Whether the calls on `a` leave a transaction open: a successful `begin` that no
successful `commit` or `rollback` follows. -/
def openAfter (t : List Event) (a : String) : Bool := t.foldl (openStep a) false

@[simp] theorem touched_append (t t' : List Event) (a : String) :
    touched (t ++ t') a = (touched t a || touched t' a) := List.any_append

@[simp] theorem touched_db (a a' : String) (op : Option SessionOp) (ok : Bool) :
    touched [.db a' op ok] a = (a' == a) := Bool.or_false _

@[simp] theorem openAfter_concat (t : List Event) (e : Event) (a : String) :
    openAfter (t ++ [e]) a = openStep a (openAfter t a) e := by
  simp [openAfter]

theorem openAfter_of_untouched {t : List Event} {a : String} (h : touched t a = false) :
    openAfter t a = false := by
  induction t using List.reverseRecOn with
  | nil => rfl
  | append_singleton t e ih =>
    rw [touched_append, Bool.or_eq_false_iff] at h
    rw [openAfter_concat, ih h.1]
    cases e with
    | db a' op ok => cases op <;> simp_all [touched, openStep]
    | _ => rfl

/-! ## User code -/

/-- The operations of user code that leaves `auto_commit` and `has_error` alone. -/
def UserOp : Op → Prop
  | .session _ _ (some op) => op.Transactional
  | .session _ _ none => True
  | .next => True
  | _ => False

def LocalOp : Op → Prop
  | .enter .. | .escaped _ | .defaultResponse _ => True
  | op => UserOp op

theorem UserOp.toLocal {op : Op} (h : UserOp op) : LocalOp op := by
  cases op <;> trivial

def IsUser (f : PyObject) : Prop := ∀ args, (f.body args).All UserOp

theorem dropNext_all {α : Type} {P : Op → Prop} {p : PyM α} (h : p.All P) : (dropNext p).All P := by
  induction p with
  | ret a => trivial
  | raise e => trivial
  | perform op k ih =>
    cases op <;> first
      | exact ih _ (h.2 _)
      | exact ⟨h.1, fun r => ih r (h.2 r)⟩

theorem invoke_all {f : PyObject} (hf : IsUser f) (args : List Arg) : (f.invoke args).All LocalOp := by
  have hbody : (f.body args).All LocalOp := (hf args).mono fun _ => UserOp.toLocal
  unfold PyObject.invoke
  split_ifs
  · trivial
  · trivial
  · trivial
  · exact ⟨trivial, fun _ => hbody⟩
  · exact ⟨trivial, fun _ => dropNext_all hbody⟩

theorem recorded_all {p : Code} (hp : p.All LocalOp) : (recorded p).All LocalOp := by
  refine hp.attempt.bind fun r => ?_
  cases r with
  | ok _ => trivial
  | error e => exact (Prog.All.call trivial).bind fun _ => trivial

/-! ## The invariant of a request -/

/-- The contexts of the request are those its code asked for; their flags still have the
values of `new`, and `in_transaction` agrees with the replay of the calls. -/
structure Tracked (env : RequestEnv) (w : World) : Prop where
  wf : Wf w.db
  context : ∀ a id, w.db.getRequestContext env.requestId a = some id →
    (w.db.heap id).autoCommit = true ∧ (w.db.heap id).hasError = false ∧
      (w.db.heap id).inTransaction = openAfter w.trace a ∧ touched w.trace a = true
  untouched : ∀ a, w.db.getRequestContext env.requestId a = none → touched w.trace a = false

variable {env : RequestEnv} {out : Nat → Except String Unit} {w : World}

theorem Tracked.log (h : Tracked env w) {e : Event} (he : ∀ a op ok, e ≠ .db a op ok) :
    Tracked env (w.log e) := by
  -- an event that is no call on a session does not move the replay
  have hopen (a : String) : openAfter (w.trace ++ [e]) a = openAfter w.trace a := by
    rw [openAfter_concat]
    cases e <;> first | rfl | exact absurd rfl (he _ _ _)
  have htouch (a : String) : touched (w.trace ++ [e]) a = touched w.trace a := by
    rw [touched_append]
    cases e <;> first | exact Bool.or_false _ | exact absurd rfl (he _ _ _)
  refine ⟨h.wf, fun a id hid => ?_, fun a hnone => ?_⟩
  · simpa only [World.log, hopen, htouch] using h.context a id hid
  · simpa only [World.log, htouch] using h.untouched a hnone

theorem Tracked.getDb (h : Tracked env w) (a : String) :
    let s := w.db.getDb env.requestId a
    Wf s.2 ∧ s.2.getRequestContext env.requestId a = some s.1 ∧
      (∀ a', a' ≠ a → s.2.getRequestContext env.requestId a' =
        w.db.getRequestContext env.requestId a') ∧
      (∀ a' id, w.db.getRequestContext env.requestId a' = some id → s.2.heap id = w.db.heap id) ∧
      (s.2.heap s.1).autoCommit = true ∧ (s.2.heap s.1).hasError = false ∧
      (s.2.heap s.1).inTransaction = openAfter w.trace a := by
  -- `get_db` finds or makes a context that agrees with the replay.
  intro s
  refine ⟨h.wf.getDb env.requestId a, ?_⟩
  cases hg : w.db.getRequestContext env.requestId a with
  | some id =>
    have hs : s = (id, w.db) := by simp only [s, DbWorld.getDb, hg]
    obtain ⟨hauto, herr, htx, -⟩ := h.context a id hg
    rw [hs]
    exact ⟨hg, fun _ _ => rfl, fun _ _ _ => rfl, hauto, herr, htx⟩
  | none =>
    have hs : s = w.db.createRequestContext env.requestId a := by simp only [s, DbWorld.getDb, hg]
    have hopen := openAfter_of_untouched (h.untouched a hg)
    rw [hs]
    refine ⟨?_, fun a' ha' => ?_, fun a' id hid => ?_, ?_⟩
    · rw [getRequestContext_create, if_pos ⟨rfl, rfl⟩]
      rfl
    · simp [getRequestContext_create, ha']
    · have hlt := (h.wf.named _ _ _ hid).1
      simp [createRequestContext, Function.update_of_ne (Nat.ne_of_lt hlt)]
    · simp [createRequestContext, DatabaseContextInner.new, hopen]

theorem Tracked.called (h : Tracked env w) {a : String} {db : DbWorld} {id : Nat}
    {op : Option SessionOp} {ok : Bool} (hwf : Wf db)
    (hself : db.getRequestContext env.requestId a = some id)
    (hother : ∀ a', a' ≠ a → db.getRequestContext env.requestId a' =
      w.db.getRequestContext env.requestId a')
    (hheap : ∀ a' i, a' ≠ a → w.db.getRequestContext env.requestId a' = some i →
      db.heap i = w.db.heap i)
    (hauto : (db.heap id).autoCommit = true) (herr : (db.heap id).hasError = false)
    (htx : (db.heap id).inTransaction = openStep a (openAfter w.trace a) (.db a op ok)) :
    Tracked env ⟨db, w.trace ++ [.db a op ok]⟩ := by
  refine ⟨hwf, fun a' i hi => ?_, fun a' hnone => ?_⟩
  · by_cases ha : a' = a
    · subst ha
      obtain rfl : id = i := Option.some.inj (hself.symm.trans hi)
      exact ⟨hauto, herr, htx.trans (openAfter_concat _ _ _).symm, by simp⟩
    · simp only [hother a' ha] at hi
      obtain ⟨h1, h2, h3, h4⟩ := h.context a' i hi
      have hstay : openStep a' (openAfter w.trace a') (.db a op ok) = openAfter w.trace a' := by
        cases op <;> simp [openStep, Ne.symm ha]
      simp only [hheap a' i ha hi, openAfter_concat, hstay, touched_append, h4, Bool.true_or]
      exact ⟨h1, h2, h3, trivial⟩
  · have ha : a' ≠ a := by
      rintro rfl
      simp [hself] at hnone
    simp only [hother a' ha] at hnone
    simp [h.untouched a' hnone, Ne.symm ha]

theorem Tracked.session (h : Tracked env w) (a : String) (init : Option PyExc)
    (op : Option SessionOp) (hop : ∀ o, op = some o → o.Transactional) :
    Tracked env (w.session env a init op).2 := by
  unfold World.session
  split_ifs
  · exact h
  · cases init with
    | some e => exact h
    | none =>
      obtain ⟨hwf, hself, hother, hheap, hauto, herr, htx⟩ := h.getDb a
      dsimp only
      generalize w.db.getDb env.requestId a = s at hwf hself hother hheap hauto herr htx ⊢
      cases op with
      | none => exact h.called hwf hself hother (fun a' i _ => hheap a' i) hauto herr htx
      | some o =>
        have hst := SessionOp.apply_statement (s.2.heap s.1) o (hop o rfl)
        have hupd : (s.2.onContext s.1 o.apply).2.heap s.1 = (o.apply (s.2.heap s.1)).ctx :=
          Function.update_self ..
        refine h.called (hwf.onContext s.1 _ (SessionOp.apply_name _ o)
          (SessionOp.apply_held _ o (hwf.held s.1))) hself hother (fun a' i ha hi => ?_)
          (hupd ▸ hst.autoCommit.trans hauto) (hupd ▸ hst.hasError.trans herr) ?_
        · have hne : i ≠ s.1 := by
            rintro rfl
            exact ha (hwf.named_unique ((hother a' ha).trans hi) hself).2
          exact (Function.update_of_ne hne ..).trans (hheap a' i hi)
        · rw [hupd, SessionOp.apply_inTransaction, htx]
          simp only [openStep, if_true]
          rfl

theorem Tracked.step (op : Op) (w : World) (hop : LocalOp op) (h : Tracked env w) :
    Tracked env (World.step env out op w).2 := by
  cases op with
  | enter id args => exact h.log (by simp)
  | escaped e => exact h.log (by simp)
  | session a init op => exact h.session a init op fun o ho => by subst ho; exact hop
  | next => exact h
  | getDb args => exact hop.elim
  | setError id => exact hop.elim
  | finalizeDb => exact hop.elim
  | defaultResponse e => exact h.log (by simp)

/-! ## The wrapper keeps the invariant -/

def MwEntry.target : MwEntry → PyObject
  | .plain mw => mw
  | .scoped _ mw => mw

structure UserApp (app : App) (handler : PyObject) (middleware : List PyObject) : Prop where
  before : ∀ f ∈ app.beforeHandlers, IsUser f
  after : ∀ f ∈ app.afterHandlers, IsUser f
  registered : ∀ e ∈ app.middleware, IsUser e.target
  excHandlers : ∀ h ∈ app.exceptionHandler.handlers, IsUser h.2
  excDefault : ∀ f ∈ app.exceptionHandler.defaultHandler, IsUser f
  handler : IsUser handler
  route : ∀ f ∈ middleware, IsUser f

def Keeps (env : RequestEnv) (out : Nat → Except String Unit) {α : Type} (p : PyM α) : Prop :=
  Prog.Preserves (World.step env out) (Tracked env) p

theorem keeps_of_all {α : Type} {p : PyM α} (h : p.All LocalOp) : Keeps env out p :=
  h.preserves Tracked.step

theorem suppress_keeps {p : Code} (hp : Keeps env out p) : Keeps env out (App.suppress p) := by
  refine hp.attempt.bind fun r => ?_
  rcases r with e | _
  · dsimp only
    split_ifs
    · exact .ret _
    · exact .raise _
  · exact .ret _

theorem markError_run (env : RequestEnv) (out : Nat → Except String Unit) (w : World) :
    Prog.run (World.step env out) (App.markError env) w = (.ok (), w) := by
  -- `_get_db` wants an alias as well, so the attempt to mark the session raises before it reaches
  -- any context, and the exception is swallowed.
  unfold App.markError
  split_ifs
  · simp only [App.suppress, Op.call, Prog.run_bind, Prog.run_attempt, Prog.run_call, World.step,
      World.getDb]
    rfl
  · rfl

section UserApp

variable {app : App} {handler : PyObject} {middleware : List PyObject}

theorem UserApp.handleException (h : UserApp app handler middleware) (e : PyExc) :
    Keeps env out (app.exceptionHandler.handleException e) := by
  apply keeps_of_all
  unfold ExceptionHandler.handleException
  split
  next f hf =>
    refine invoke_all ?_ _
    unfold ExceptionHandler.getHandler at hf
    split at hf
    next p hp => exact Option.some.inj hf ▸ h.excHandlers p (List.mem_of_find?_eq_some hp)
    next =>
      split at hf
      next p hp => exact Option.some.inj hf ▸ h.excHandlers p (List.mem_of_find?_eq_some hp)
      next => exact h.excDefault f hf
  next => exact Prog.All.call trivial

theorem UserApp.runBefore (h : UserApp app handler middleware) (fs : List PyObject)
    (hfs : ∀ f ∈ fs, IsUser f) : Keeps env out (app.runBefore fs) := by
  induction fs with
  | nil => exact .ret _
  | cons f fs ih =>
    have hf := recorded_all (invoke_all (hfs f List.mem_cons_self) [.req, .res, .ctx])
    refine (keeps_of_all hf).attempt.bind fun r => ?_
    rcases r with e | _
    · dsimp only
      split_ifs
      · exact (h.handleException e).bind fun _ => .ret _
      · exact .raise _
    · exact ih fun g hg => hfs g (List.mem_cons_of_mem _ hg)

theorem UserApp.executeHandler (h : UserApp app handler middleware) :
    Keeps env out (app.executeHandler env handler) := by
  refine (keeps_of_all (recorded_all (invoke_all h.handler _))).attempt.bind fun r => ?_
  rcases r with e | _
  · dsimp only
    split_ifs
    · refine Prog.Preserves.bind (fun w hw => ?_) fun _ => h.handleException e
      rw [markError_run]
      exact hw
    · exact .raise _
  · exact .ret _

theorem elimNext_keeps {next : Nat → PyM (Except PyExc Unit × Nat)}
    (hnext : ∀ i, Keeps env out (next i)) {p : Code} (hp : p.All LocalOp) (i : Nat) :
    Keeps env out (elimNext next p i) := by
  induction p generalizing i with
  | ret a => exact .ret _
  | raise e => exact .ret _
  | perform op k ih =>
    have hop (w : World) (hw : Tracked env w) : Tracked env (World.step env out op w).2 :=
      Tracked.step op w hp.1 hw
    cases op with
    | next => exact (hnext i).bind fun r => ih _ (hp.2 _) _
    | _ => exact fun w hw => ih _ (hp.2 _) i _ (hop w hw)

theorem nextMiddleware_keeps {args : List Arg} {mws : List PyObject} {tail : Code}
    (htail : Keeps env out tail) (hmws : ∀ f ∈ mws, IsUser f) (fuel i : Nat) :
    Keeps env out (nextMiddleware args mws tail fuel i) := by
  -- the induction is on the fuel, which bounds the middlewares that are left
  induction fuel generalizing i with
  | zero => exact htail.attempt.bind fun _ => .ret _
  | succ fuel ih =>
    unfold nextMiddleware
    split
    next mw hmw =>
      exact elimNext_keeps ih (recorded_all (invoke_all (hmws mw (List.mem_of_getElem? hmw)) _)) _
    next => exact htail.attempt.bind fun _ => .ret _

theorem UserApp.applicable (h : UserApp app handler middleware) (path : String) :
    ∀ f ∈ app.applicableMiddleware path ++ middleware, IsUser f := by
  intro f hf
  obtain hf | hf := List.mem_append.mp hf
  · obtain ⟨e, he, hef⟩ := List.mem_filterMap.mp hf
    have : f = e.target := by
      cases e <;> simp only [MwEntry.applicable, Option.ite_none_right_eq_some] at hef <;>
        exact (Option.some.inj hef.2).symm
    exact this ▸ h.registered e he
  · exact h.route f hf

theorem UserApp.runPipeline (h : UserApp app handler middleware) {mws : List PyObject}
    (hmws : ∀ f ∈ mws, IsUser f) : Keeps env out (app.runPipeline env handler mws) := by
  unfold App.runPipeline
  split_ifs
  · exact h.executeHandler
  · refine Prog.Preserves.bind (.attempt ?_) fun r => ?_
    · exact (nextMiddleware_keeps h.executeHandler hmws _ _).bind fun r => .ofExcept r.1
    · rcases r with e | _
      · dsimp only
        split_ifs
        · exact h.handleException e
        · exact .raise _
      · exact .ret _

theorem runAfter_keeps (fs : List PyObject) (hfs : ∀ f ∈ fs, IsUser f) :
    Keeps env out (App.runAfter fs) := by
  induction fs with
  | nil => exact .ret _
  | cons f fs ih =>
    exact (suppress_keeps (keeps_of_all (invoke_all (hfs f List.mem_cons_self) _))).bind fun _ =>
      ih fun g hg => hfs g (List.mem_cons_of_mem _ hg)

theorem UserApp.tryBody (h : UserApp app handler middleware) :
    Keeps env out (app.tryBody env handler middleware) := by
  refine (h.runBefore _ h.before).bind fun early => ?_
  split_ifs
  · exact .ret _
  · exact (h.runPipeline (h.applicable env.path)).bind fun _ => runAfter_keeps _ h.after

end UserApp

/-! ## The end of a request -/

/-- A request handled by the wrapper, in a state that session calls led to. The server
executes whatever `finalize` sends. -/
structure Handled where
  app : App
  handler : PyObject
  middleware : List PyObject
  env : RequestEnv
  out : Nat → Except String Unit
  start : World
  user : UserApp app handler middleware
  made : env.factoryError = none
  tracked : Tracked env start
  answered : ∀ i, out i = .ok ()

namespace Handled

variable (r : Handled)

def atFinally : World :=
  (Prog.run (World.step r.env r.out) (r.app.tryBody r.env r.handler r.middleware) r.start).2

def final : World :=
  (Prog.run (World.step r.env r.out) (r.app.wrapped r.env r.handler r.middleware) r.start).2

/-- An exception left a before-handler, a middleware or the handler of this request. -/
def Escaped : Prop := ∃ e, .escaped e ∈ r.atFinally.trace.drop r.start.trace.length

/-- Every transaction that is open when the `finally` block starts is ended by ROLLBACK, and
every context of the request is finalized and gone from the map. -/
def RolledBack : Prop :=
  (∀ a id, r.atFinally.db.getRequestContext r.env.requestId a = some id →
    (r.atFinally.db.heap id).inTransaction = true →
    ∃ conn, r.final.db.sentOn id = r.atFinally.db.sentOn id ++ [⟨conn, .rollback, true⟩]) ∧
  (∀ a id, r.atFinally.db.getRequestContext r.env.requestId a = some id →
    (r.final.db.heap id).state = .closed) ∧
  r.final.db.contexts.lookup r.env.requestId = none

/-- No session was asked for, or the alias `default` is configured and the request's own
calls ended every transaction they began. -/
def Harmless : Prop :=
  (∀ a, touched r.atFinally.trace a = false) ∨
    (r.env.isConfigured = true ∧ ∀ a, openAfter r.atFinally.trace a = false)

theorem tracked_atFinally : Tracked r.env r.atFinally := r.user.tryBody r.start r.tracked

theorem final_of_unconfigured (h : r.env.isConfigured = false) : r.final = r.atFinally := by
  simp only [final, atFinally, App.wrapped, r.made, Prog.run_finallyDo, App.finalizeBlock, h,
    Bool.false_eq_true, if_false, Prog.run_ret]

theorem final_of_configured (h : r.env.isConfigured = true) :
    r.final.db.contexts.lookup r.env.requestId = none ∧
      ∀ a id, r.atFinally.db.getRequestContext r.env.requestId a = some id →
        Finalized r.atFinally.db r.final.db id := by
  obtain ⟨db, heq, -, hnone, hdone⟩ :=
    r.tracked_atFinally.wf.finalizeAll_spec r.env.requestId r.answered
  have hstep : World.step r.env r.out .finalizeDb r.atFinally =
      (.ok (), { r.atFinally with db := db }) := by
    simp only [World.step, heq]
    rfl
  have hfinal : r.final.db = db := by
    unfold atFinally at hstep
    simp only [final, App.wrapped, r.made, Prog.run_finallyDo, App.finalizeBlock, h, if_true,
      App.suppress, Op.call, Prog.run_bind, Prog.run_attempt, Prog.run_call, hstep, Prog.run_ret]
  rw [hfinal]
  exact ⟨hnone, hdone⟩

theorem lastSent_of_open {id : Nat} {a : String}
    (hid : r.atFinally.db.getRequestContext r.env.requestId a = some id)
    (htx : (r.atFinally.db.heap id).inTransaction = true) :
    ∃ conn, lastSent (r.atFinally.db.heap id) = [⟨conn, .commit, true⟩] := by
  -- nobody marked the context, so `finalize` commits
  obtain ⟨hauto, herr, -, -⟩ := r.tracked_atFinally.context a id hid
  obtain ⟨conn, hconn⟩ := Option.isSome_iff_exists.mp (r.tracked_atFinally.wf.held id htx)
  exact ⟨conn, by simp [lastSent, lastStmt, htx, hconn, hauto, herr]⟩

theorem harmless_of_rolledBack (h : r.RolledBack) : r.Harmless := by
  obtain ⟨hroll, -, hgone⟩ := h
  have htrack := r.tracked_atFinally
  cases hconf : r.env.isConfigured with
  | false =>
    rw [r.final_of_unconfigured hconf, htrack.wf.lookup_eq_none] at hgone
    exact .inl fun a => htrack.untouched a (hgone a)
  | true =>
    refine .inr ⟨hconf, fun a => ?_⟩
    cases hid : r.atFinally.db.getRequestContext r.env.requestId a with
    | none => exact openAfter_of_untouched (htrack.untouched a hid)
    | some id =>
      rw [← (htrack.context a id hid).2.2.1]
      by_contra htx
      rw [Bool.not_eq_false] at htx
      obtain ⟨conn, hsent⟩ := hroll a id hid htx
      obtain ⟨conn', hlast⟩ := r.lastSent_of_open hid htx
      rw [((r.final_of_configured hconf).2 a id hid).sent, hlast] at hsent
      simp at hsent

theorem rolledBack_of_harmless (h : r.Harmless) : r.RolledBack := by
  have htrack := r.tracked_atFinally
  obtain hnone | ⟨hconf, hclosed⟩ := h
  · have hnoctx (a : String) : r.atFinally.db.getRequestContext r.env.requestId a = none := by
      by_contra hne
      obtain ⟨id, hid⟩ := Option.ne_none_iff_exists'.mp hne
      exact absurd (hnone a) (by simp [(htrack.context a id hid).2.2.2])
    refine ⟨fun a id hid => by simp [hnoctx] at hid, fun a id hid => by simp [hnoctx] at hid, ?_⟩
    cases hconf : r.env.isConfigured with
    | false => rwa [r.final_of_unconfigured hconf, htrack.wf.lookup_eq_none]
    | true => exact (r.final_of_configured hconf).1
  · obtain ⟨hgone, hdone⟩ := r.final_of_configured hconf
    refine ⟨fun a id hid htx => ?_, fun a id hid => (hdone a id hid).closed, hgone⟩
    rw [(htrack.context a id hid).2.2.1, hclosed a] at htx
    exact absurd htx (by decide)

/-- A failing request is rolled back exactly when there was nothing to roll back. -/
theorem rolledBack_on_failure_iff :
    (r.Escaped → r.RolledBack) ↔ (r.Escaped → r.Harmless) :=
  ⟨fun h he => r.harmless_of_rolledBack (h he), fun h he => r.rolledBack_of_harmless (h he)⟩

def beginThenRaise : PyObject :=
  asyncDef 0 3 fun _ =>
    .perform (.session "default" none (some (.begin (.acquired 7) (.ok ())))) fun _ =>
      .raise (builtinError "ValueError" "boom")

def beginThenRaiseRequest : Handled where
  app := ⟨[], [], [], ⟨[], none⟩⟩
  handler := beginThenRaise
  middleware := []
  env := ⟨"0123456789abcdef", none, "/", ["default"]⟩
  out := fun _ => .ok ()
  start := ⟨.empty, []⟩
  user := by
    refine ⟨by simp, by simp, by simp, by simp, by simp, fun _ => ⟨trivial, fun _ => trivial⟩, by simp⟩
  made := rfl
  tracked := ⟨wf_empty, fun _ _ h => by simp [getRequestContext, DbWorld.empty] at h, fun _ _ => rfl⟩
  answered := fun _ => rfl

theorem beginThenRaise_trace : beginThenRaiseRequest.atFinally.trace =
    [.enter 0 [.req, .res, .ctx], .db "default" (some (.begin (.acquired 7) (.ok ()))) true,
      .escaped (builtinError "ValueError" "boom"),
      .defaultResponse (builtinError "ValueError" "boom")] := rfl

theorem commits_on_failure : ¬ ∀ r : Handled, r.Escaped → r.RolledBack := by
  intro h
  have hescaped : beginThenRaiseRequest.Escaped :=
    ⟨builtinError "ValueError" "boom", by rw [beginThenRaise_trace]; simp [beginThenRaiseRequest]⟩
  obtain hnone | ⟨-, hclosed⟩ := harmless_of_rolledBack _ (h _ hescaped)
  · have := hnone "default"
    rw [beginThenRaise_trace] at this
    simp [touched] at this
  · have := hclosed "default"
    rw [beginThenRaise_trace] at this
    simp [openAfter, openStep, SessionOp.opens, SessionOp.after] at this

end Handled

end Hypern.Application
