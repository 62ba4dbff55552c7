import Hypern.App.Rollback

/-! Mounted routers: `hypern.router.Router` with its registries, `_mount_router`, and which
of the functions registered with a router a request to one of its routes calls. -/

namespace Hypern.Application

open Lib Python

structure Route where
  method : String
  path : String
  handler : PyObject

/-- `hypern.router.Router`; the dictionary of error handlers is a list in insertion order. -/
structure Router where
  pathPrefix : String
  routes : List Route
  middleware : List PyObject
  beforeHandlers : List PyObject
  afterHandlers : List PyObject
  errorHandlers : List (String × PyObject)

namespace Router

def new (pathPrefix : String) : Router :=
  ⟨String.ofList (pathPrefix.toList.reverse.dropWhile (· == '/')).reverse, [], [], [], [], []⟩

def normalizePath (path : String) : String := if startsWith path "/" then path else "/" ++ path

/-- The `async def wrapped(req, res)` that `_wrap_with_middleware` returns; `functools.wraps`
copies the handler's attributes onto it. -/
def wrapWithMiddleware (id : Nat) (handler : PyObject) (middleware : List PyObject) : PyObject :=
  { asyncDef id 2 fun _ => runChain [.req, .res, .next] middleware (handler.invoke [.req, .res]) with
    beforeRequest := handler.beforeRequest
    afterRequest := handler.afterRequest
    isMiddleware := handler.isMiddleware }

/-- What `_add_route` appends to the routes; `id` is the identity of the wrapper it may make. -/
def route (id : Nat) (method path : String) (handler : PyObject) (middleware : List PyObject) :
    Route :=
  { method := method.toUpper
    path := normalizePath path
    handler := if middleware.isEmpty then handler else wrapWithMiddleware id handler middleware }

def addRoute (router : Router) (id : Nat) (method path : String) (handler : PyObject)
    (middleware : List PyObject) : Router :=
  { router with routes := router.routes ++ [route id method path handler middleware] }

def use (router : Router) (mw : PyObject) : Router :=
  { router with middleware := router.middleware ++ [mw] }

def before (router : Router) (handler : PyObject) : Router :=
  { router with beforeHandlers := router.beforeHandlers ++ [handler] }

def after (router : Router) (handler : PyObject) : Router :=
  { router with afterHandlers := router.afterHandlers ++ [handler] }

def error (router : Router) (cls : String) (handler : PyObject) : Router :=
  if router.errorHandlers.any (·.1 == cls) then
    { router with errorHandlers := router.errorHandlers.map fun h =>
        if h.1 == cls then (cls, handler) else h }
  else { router with errorHandlers := router.errorHandlers ++ [(cls, handler)] }

/-- The registration that an exception belongs to: its own class first, then any base class. -/
def errorHandler (router : Router) (e : PyExc) : Option PyObject :=
  ExceptionHandler.getHandler ⟨router.errorHandlers, none⟩ e

end Router

namespace App

def endpoint (path : String) : String :=
  if path = "" then "/" else if startsWith path "/" then path else "/" ++ path

/-- The routes that `_mount_router` adds to the application. Each handler is then given to
`_wrap_handler`, without middleware of its own. -/
def mountRouter (pathPrefix : String) (router : Router) : List Route :=
  router.routes.map fun r => { r with path := endpoint (pathPrefix ++ r.path) }

def mount (router : Router) : List Route := mountRouter router.pathPrefix router

end App

/-! ## What a request to a mounted route calls -/

namespace Event

/-- An entry of the trace about control flow, not about data. -/
def isMark : Event → Bool
  | .enter .. | .escaped _ => true
  | _ => false

/-- A call of one of `ids` that is not given an exception. -/
def call? (ids : List Nat) : Event → Option (Nat × List Arg)
  | .enter id args =>
    if ids.contains id && !args.any (fun | .exc _ => true | _ => false) then some (id, args)
    else none
  | _ => none

end Event

def World.marks (w : World) : List Event := w.trace.filter Event.isMark

/-- A function whose body leaves the records of calls and exceptions to the framework. -/
def Plain (f : PyObject) : Prop :=
  ∀ args, (f.body args).All fun
    | .enter .. | .escaped _ => False
    | _ => True

/-- No handler is found where none is registered. -/
theorem getHandler_empty_plain (e : PyExc) (h : PyObject)
    (hfound : ExceptionHandler.getHandler ⟨[], none⟩ e = some h) : Plain h :=
  absurd hfound (Option.some_ne_none h).symm

/-- A route registered with a router that is mounted on an application. -/
structure Endpoint where
  app : App
  pathPrefix : String
  router : Router
  wrapperId : Nat
  method : String
  path : String
  handler : PyObject
  middleware : List PyObject
  handler_plain : Plain handler
  excHandlers_plain : ∀ e h, app.exceptionHandler.getHandler e = some h → Plain h

namespace Endpoint

variable (m : Endpoint)

def mounted : Option Route :=
  (App.mountRouter m.pathPrefix (m.router.addRoute m.wrapperId m.method m.path m.handler
    m.middleware)).getLast?

def ahead : List PyObject := m.router.beforeHandlers ++ (m.router.middleware ++ m.middleware)

def ids : List Nat := (m.ahead ++ m.handler :: m.router.afterHandlers).map (·.id)

/-- What happens from the moment the application's wrapper hands the request on to the
mounted handler, in the state `w`. -/
def marksOf (env : RequestEnv) (out : Nat → Except String Unit) (w : World) (route : Route) :
    List Event :=
  (Prog.run (World.step env out) (App.executeHandler m.app env route.handler)
    { w with trace := [] }).2.marks

/-- The functions ahead of the handler are called in order, then the handler with the
arguments of the application's wrapper, then the after-handlers; and an exception that
leaves the handler is given to the error handler registered for it. -/
def Kept (env : RequestEnv) (out : Nat → Except String Unit) (w : World) : Prop :=
  ∀ route, m.mounted = some route →
    (∃ first last, (m.marksOf env out w route).filterMap (Event.call? m.ids) =
        first ++ (m.handler.id, [.req, .res, .ctx]) :: last ∧
      first.map Prod.fst = m.ahead.map (·.id) ∧
      last.map Prod.fst = m.router.afterHandlers.map (·.id)) ∧
    ∀ e h, .escaped e ∈ m.marksOf env out w route → m.router.errorHandler e = some h →
      ∃ args, .enter h.id args ∈ m.marksOf env out w route ∧ .exc e ∈ args

def outcome (env : RequestEnv) (out : Nat → Except String Unit) (w : World) : Except PyExc Unit :=
  (Prog.run (World.step env out) (m.handler.invoke [.req, .res, .ctx]) { w with trace := [] }).1

def GivenBy (app : App) (e : PyExc) (h : PyObject) : Prop :=
  e.isException = true ∧
    ∃ h', app.exceptionHandler.getHandler e = some h' ∧ h'.id = h.id ∧ h'.enters 3 = true

end Endpoint

/-! ## The marks that the wrapper leaves -/

section Marks

variable {env : RequestEnv} {out : Nat → Except String Unit}

@[simp] theorem marks_log (w : World) (e : Event) :
    (w.log e).marks = w.marks ++ if e.isMark then [e] else [] := by
  simp [World.marks, World.log, List.filter_append, List.filter_cons]

theorem marks_session (dbAlias : String) (init : Option PyExc) (op : Option Database.SessionOp)
    (w : World) : (w.session env dbAlias init op).2.marks = w.marks := by
  unfold World.session
  split_ifs
  · rfl
  · cases init with
    | some e => rfl
    | none =>
      cases op <;> simp [World.marks, List.filter_append, Event.isMark]

theorem marks_step (op : Op) (w : World) (h : ∀ id args, op ≠ .enter id args)
    (h' : ∀ e, op ≠ .escaped e) : (World.step env out op w).2.marks = w.marks := by
  cases op with
  | enter id args => exact absurd rfl (h id args)
  | escaped e => exact absurd rfl (h' e)
  | session dbAlias init op => exact marks_session dbAlias init op w
  | next => rfl
  | getDb args =>
    change (World.getDb args w).2.marks = w.marks
    unfold World.getDb
    split <;> rfl
  | setError id => rfl
  | finalizeDb => rfl
  | defaultResponse e => simp [World.step, Event.isMark]

theorem marks_run_plain {p : Code}
    (hp : p.All fun | .enter .. | .escaped _ => False | _ => True) (w : World) :
    (Prog.run (World.step env out) p w).2.marks = w.marks := by
  have hkeeps : Prog.Preserves (World.step env out) (fun w' => w'.marks = w.marks) p := by
    refine hp.preserves fun op w' hop hw' => ?_
    rw [marks_step op w' (by rintro _ _ rfl; exact hop) (by rintro _ rfl; exact hop), hw']
  exact hkeeps w rfl

theorem marks_run_invoke {f : PyObject} (hf : Plain f) (args : List Arg) (w : World) :
    (Prog.run (World.step env out) (f.invoke args) w).2.marks =
      w.marks ++ if f.enters args.length then [.enter f.id args] else [] := by
  -- one case for each way a call can fail to reach the body
  unfold PyObject.invoke PyObject.enters
  cases f.callable with
  | false => simp
  | true =>
    cases f.accepts args.length with
    | false => simp
    | true =>
      cases f.asyncBody with
      | false =>
        simp [World.step, marks_run_plain (dropNext_all (hf args)), Event.isMark]
      | true =>
        cases f.isCoroutineFunction with
        | false => simp
        | true =>
          simp [World.step, marks_run_plain (hf args), Event.isMark]

def excMarks (app : App) (e : PyExc) : List Event :=
  match app.exceptionHandler.getHandler e with
  | some h => if h.enters 3 then [.enter h.id [.req, .res, .exc e]] else []
  | none => []

theorem mem_excMarks {app : App} {e : PyExc} {ev : Event} :
    ev ∈ excMarks app e ↔ ∃ h, app.exceptionHandler.getHandler e = some h ∧ h.enters 3 = true ∧
      ev = .enter h.id [.req, .res, .exc e] := by
  unfold excMarks
  cases app.exceptionHandler.getHandler e with
  | none => simp
  | some h => cases henters : h.enters 3 <;> simp [henters]

theorem marks_run_handleException {app : App}
    (hplain : ∀ e h, app.exceptionHandler.getHandler e = some h → Plain h) (e : PyExc) (w : World) :
    (Prog.run (World.step env out) (app.exceptionHandler.handleException e) w).2.marks =
      w.marks ++ excMarks app e := by
  unfold ExceptionHandler.handleException excMarks
  cases hget : app.exceptionHandler.getHandler e with
  | none => simp [Op.call, World.step, Event.isMark]
  | some h => exact marks_run_invoke (hplain e h hget) _ w

theorem run_recorded (p : Code) (w : World) :
    Prog.run (World.step env out) (recorded p) w =
      match Prog.run (World.step env out) p w with
      | (.ok _, w') => (.ok (), w')
      | (.error e, w') => (.error e, w'.log (.escaped e)) := by
  rw [recorded, Prog.run_bind, Prog.run_attempt]
  rcases Prog.run (World.step env out) p w with ⟨e | _, w'⟩ <;> rfl

theorem marks_run_executeHandler {app : App}
    (hplain : ∀ e h, app.exceptionHandler.getHandler e = some h → Plain h) (handler : PyObject)
    (w : World) :
    (Prog.run (World.step env out) (app.executeHandler env handler) w).2.marks =
      (Prog.run (World.step env out) (handler.invoke [.req, .res, .ctx]) w).2.marks ++
        match (Prog.run (World.step env out) (handler.invoke [.req, .res, .ctx]) w).1 with
        | .ok _ => []
        | .error e => .escaped e :: if e.isException then excMarks app e else [] := by
  rw [App.executeHandler, Prog.run_bind, Prog.run_attempt, run_recorded]
  rcases Prog.run (World.step env out) (handler.invoke [.req, .res, .ctx]) w with ⟨e | _, w'⟩
  · have hescaped : (w'.log (.escaped e)).marks = w'.marks ++ [.escaped e] := by
      simp [Event.isMark]
    dsimp only
    split_ifs
    · rw [Prog.run_bind, markError_run, marks_run_handleException hplain, hescaped,
        List.append_assoc, List.singleton_append]
    · exact hescaped
  · simp

theorem marks_run_finalizeBlock (w : World) :
    (Prog.run (World.step env out) (App.finalizeBlock env) w).2.marks = w.marks := by
  unfold App.finalizeBlock App.suppress
  split_ifs
  · have hkept : (World.step env out .finalizeDb w).2.marks = w.marks := by
      apply marks_step
      · intro id args hop
        cases hop
      · intro e hop
        cases hop
    rw [Prog.run_bind, Prog.run_attempt, Op.call, Prog.run_call]
    rcases hstep : World.step env out .finalizeDb w with ⟨e | _, w'⟩
    · have hmarks : w'.marks = w.marks := by rw [← hkept, hstep]
      dsimp only
      split_ifs <;> exact hmarks
    · have hmarks : w'.marks = w.marks := by rw [← hkept, hstep]
      exact hmarks
  · rfl

/-- In an application without registrations of its own the whole wrapper leaves the marks of
`execute_handler`. -/
theorem marks_run_wrapped {app : App} (hbefore : app.beforeHandlers = [])
    (hmiddleware : app.middleware = []) (hafter : app.afterHandlers = [])
    (henv : env.factoryError = none) (handler : PyObject) (w : World) :
    (Prog.run (World.step env out) (app.wrapped env handler []) w).2.marks =
      (Prog.run (World.step env out) (app.executeHandler env handler) w).2.marks := by
  have hbody : (Prog.run (World.step env out) (app.tryBody env handler []) w).2 =
      (Prog.run (World.step env out) (app.executeHandler env handler) w).2 := by
    simp only [App.tryBody, App.applicableMiddleware, hbefore, hmiddleware, hafter, App.runBefore,
      App.runPipeline, App.runAfter, Prog.run_bind, Prog.run_ret, List.filterMap_nil, List.nil_append,
      List.isEmpty_nil, if_true, Bool.false_eq_true, if_false]
    rcases Prog.run (World.step env out) (app.executeHandler env handler) w with ⟨_ | _, _⟩ <;> rfl
  rw [App.wrapped, henv, ← hbody]
  dsimp only
  rw [Prog.run_finallyDo]
  generalize Prog.run (World.step env out) (app.tryBody env handler []) w = s
  have hfinal : (Prog.run (World.step env out) (App.finalizeBlock env) s.2).2.marks = s.2.marks :=
    marks_run_finalizeBlock s.2
  rw [← hfinal]
  rcases Prog.run (World.step env out) (App.finalizeBlock env) s.2 with ⟨_ | _, _⟩ <;> rfl

end Marks

/-! ## Which registrations a mounted route keeps -/

namespace Endpoint

variable {m : Endpoint} {env : RequestEnv} {out : Nat → Except String Unit} {w : World}

theorem mounted_eq (m : Endpoint) :
    ∃ route, m.mounted = some route ∧ route.handler =
      if m.middleware.isEmpty then m.handler
      else Router.wrapWithMiddleware m.wrapperId m.handler m.middleware := by
  simp [mounted, App.mountRouter, Router.addRoute, Router.route]

def failureMarks (app : App) : Except PyExc Unit → List Event
  | .ok _ => []
  | .error e => .escaped e :: if e.isException then excMarks app e else []

theorem mem_failureMarks {app : App} {r : Except PyExc Unit} {ev : Event} :
    ev ∈ failureMarks app r ↔ ∃ e, r = .error e ∧ (ev = .escaped e ∨ e.isException = true ∧
      ∃ h, app.exceptionHandler.getHandler e = some h ∧ h.enters 3 = true ∧
        ev = .enter h.id [.req, .res, .exc e]) := by
  rcases r with e | _
  · cases hexc : e.isException <;> simp [failureMarks, hexc, mem_excMarks]
  · simp [failureMarks]

theorem call?_failureMarks (app : App) (r : Except PyExc Unit) (ids : List Nat) :
    (failureMarks app r).filterMap (Event.call? ids) = [] := by
  rw [List.filterMap_eq_nil_iff]
  intro ev hev
  obtain ⟨e, _, rfl | ⟨_, h, _, _, rfl⟩⟩ := mem_failureMarks.mp hev
  · rfl
  · simp [Event.call?]

theorem marksOf_wrapped {route : Route} {id : Nat} {middleware : List PyObject}
    (h : route.handler = Router.wrapWithMiddleware id m.handler middleware) :
    (m.marksOf env out w route).filterMap (Event.call? m.ids) = [] := by
  -- the wrapper takes two arguments and is given three
  rw [marksOf, marks_run_executeHandler m.excHandlers_plain, h, List.filterMap_append]
  exact call?_failureMarks m.app (.error _) m.ids

theorem marksOf_handler {route : Route} (h : route.handler = m.handler) :
    m.marksOf env out w route =
      (if m.handler.enters 3 then [.enter m.handler.id [.req, .res, .ctx]] else []) ++
        failureMarks m.app (m.outcome env out w) := by
  rw [marksOf, marks_run_executeHandler m.excHandlers_plain, h, marks_run_invoke m.handler_plain]
  rfl

theorem handler_id_mem (m : Endpoint) : m.handler.id ∈ m.ids :=
  List.mem_map_of_mem (List.mem_append_right _ List.mem_cons_self)

theorem calls_eq (m : Endpoint) (env : RequestEnv) (out : Nat → Except String Unit) (w : World)
    {route : Route} (h : m.mounted = some route) :
    (m.marksOf env out w route).filterMap (Event.call? m.ids) =
      if m.middleware = [] ∧ m.handler.enters 3 = true then
        [(m.handler.id, [.req, .res, .ctx])] else [] := by
  obtain ⟨route', hroute, hhandler⟩ := m.mounted_eq
  obtain rfl : route = route' := Option.some.inj (h.symm.trans hroute)
  cases hmw : m.middleware with
  | nil =>
    rw [hmw] at hhandler
    have hcall : Event.call? m.ids (.enter m.handler.id [.req, .res, .ctx]) =
        some (m.handler.id, [.req, .res, .ctx]) := by
      simp [Event.call?, m.handler_id_mem]
    rw [marksOf_handler hhandler, List.filterMap_append, call?_failureMarks, List.append_nil]
    cases m.handler.enters 3 <;> simp [hcall]
  | cons mw mws =>
    rw [hmw] at hhandler
    rw [marksOf_wrapped hhandler, if_neg (by simp)]

theorem given_iff (m : Endpoint) (env : RequestEnv) (out : Nat → Except String Unit) (w : World)
    {route : Route} (h : route.handler = m.handler) :
    (∀ e f, .escaped e ∈ m.marksOf env out w route → m.router.errorHandler e = some f →
        ∃ args, .enter f.id args ∈ m.marksOf env out w route ∧ .exc e ∈ args) ↔
      ∀ e f, m.outcome env out w = .error e → m.router.errorHandler e = some f →
        GivenBy m.app e f := by
  rw [marksOf_handler h]
  have hescaped (e : PyExc) : .escaped e ∈ (if m.handler.enters 3 then
      [Event.enter m.handler.id [.req, .res, .ctx]] else []) ++
        failureMarks m.app (m.outcome env out w) ↔ m.outcome env out w = .error e := by
    cases m.handler.enters 3 <;> simp [mem_failureMarks]
  refine forall₂_congr fun e f => imp_congr_ctx (hescaped e) fun houtcome => imp_congr_right fun _ => ?_
  constructor
  · rintro ⟨args, hmem, hexc⟩
    rcases List.mem_append.mp hmem with hcall | hfailed
    · -- the call of the handler itself is given no exception
      split_ifs at hcall
      · obtain ⟨_, rfl⟩ : f.id = m.handler.id ∧ args = [.req, .res, .ctx] := by simpa using hcall
        simp at hexc
      · simp at hcall
    · obtain ⟨e', he', hcases⟩ := mem_failureMarks.mp hfailed
      obtain rfl : e = e' := Except.error.inj (houtcome.symm.trans he')
      rcases hcases with hescape | ⟨hisexc, h', hget, henters, heq⟩
      · cases hescape
      · exact ⟨hisexc, h', hget, (Event.enter.inj heq).1.symm, henters⟩
  · rintro ⟨hisexc, h', hget, hid, henters⟩
    refine ⟨[.req, .res, .exc e], List.mem_append_right _ (mem_failureMarks.mpr ?_), by simp⟩
    exact ⟨e, houtcome, .inr ⟨hisexc, h', hget, henters, by rw [hid]⟩⟩

theorem kept_iff_unregistered (m : Endpoint) (env : RequestEnv) (out : Nat → Except String Unit)
    (w : World) :
    m.Kept env out w ↔
      m.router.beforeHandlers = [] ∧ m.router.middleware = [] ∧ m.middleware = [] ∧
      m.router.afterHandlers = [] ∧ m.handler.enters 3 = true ∧
      ∀ e h, m.outcome env out w = .error e → m.router.errorHandler e = some h →
        GivenBy m.app e h := by
  obtain ⟨route, hroute, hhandler⟩ := m.mounted_eq
  have hkept : m.Kept env out w ↔
      (∃ first last, (m.marksOf env out w route).filterMap (Event.call? m.ids) =
          first ++ (m.handler.id, [.req, .res, .ctx]) :: last ∧
        first.map Prod.fst = m.ahead.map (·.id) ∧
        last.map Prod.fst = m.router.afterHandlers.map (·.id)) ∧
      ∀ e h, .escaped e ∈ m.marksOf env out w route → m.router.errorHandler e = some h →
        ∃ args, .enter h.id args ∈ m.marksOf env out w route ∧ .exc e ∈ args := by
    constructor
    · intro hkept
      exact hkept route hroute
    · intro hkept route' hroute'
      obtain rfl : route = route' := Option.some.inj (hroute.symm.trans hroute')
      exact hkept
  rw [hkept, m.calls_eq env out w hroute]
  constructor
  · rintro ⟨⟨first, last, hcalls, hfirst, hlast⟩, hgiven⟩
    split_ifs at hcalls with hcond
    · obtain ⟨hmw, henters⟩ := hcond
      -- the handler is the only one that is called, so nothing is ahead of it or behind it
      have hnil : first = [] ∧ last = [] := by
        have hlen := congrArg List.length hcalls
        simp only [List.length_append, List.length_cons, List.length_nil] at hlen
        exact ⟨List.eq_nil_of_length_eq_zero (by omega), List.eq_nil_of_length_eq_zero (by omega)⟩
      rw [hnil.1, eq_comm, List.map_nil, List.map_eq_nil_iff, ahead, List.append_eq_nil_iff,
        List.append_eq_nil_iff] at hfirst
      rw [hnil.2, eq_comm, List.map_nil, List.map_eq_nil_iff] at hlast
      rw [hmw] at hhandler
      exact ⟨hfirst.1, hfirst.2.1, hmw, hlast, henters, (m.given_iff env out w hhandler).mp hgiven⟩
    · exact absurd hcalls (by simp)
  · rintro ⟨hbefore, huse, hmw, hafter, henters, hgiven⟩
    rw [hmw] at hhandler
    refine ⟨⟨[], [], ?_, ?_, ?_⟩, (m.given_iff env out w hhandler).mpr hgiven⟩
    · rw [if_pos ⟨hmw, henters⟩, List.nil_append]
    · rw [ahead, hbefore, huse, hmw]
      rfl
    · rw [hafter]
      rfl

/-- A router with one before-handler, and a route whose handler takes `(req, res, ctx)`. -/
def guardedRoute : Endpoint where
  app := ⟨[], [], [], ⟨[], none⟩⟩
  pathPrefix := "/api"
  router := (Router.new "/api").before (asyncDef 1 2 fun _ => .ret ())
  wrapperId := 0
  method := "get"
  path := "/users"
  handler := asyncDef 2 3 fun _ => .ret ()
  middleware := []
  handler_plain := fun _ => trivial
  excHandlers_plain := getHandler_empty_plain

theorem before_handler_dropped :
    ¬ ∀ (m : Endpoint) (env : RequestEnv) (out : Nat → Except String Unit) (w : World),
      m.Kept env out w := by
  intro h
  have hkept := h guardedRoute ⟨"", none, "/api/users", []⟩ (fun _ => .ok ()) ⟨.empty, []⟩
  obtain ⟨first, last, hcalls, hfirst, _⟩ := (hkept _ rfl).1
  rw [calls_eq _ _ _ _ rfl, if_pos ⟨rfl, rfl⟩] at hcalls
  have hlen := congrArg List.length hcalls
  have hone : first.length = 1 := by
    rw [← List.length_map Prod.fst, hfirst]
    rfl
  simp [hone] at hlen

end Endpoint

end Hypern.Application
