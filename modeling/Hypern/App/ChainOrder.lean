import Hypern.App.Mount

/-! Which middlewares the wrapper's chain executes, and whether it comes to the handler. -/

namespace Hypern.Application

open Lib Python Database

/-- A body that was executed, and what it was given. -/
abbrev Executed := Nat × List Arg

/-- A body was executed, other than an exception handler's. -/
def Event.executed? : Event → Option Executed
  | .enter id args => if args.any (fun | .exc _ => true | _ => false) then none else some (id, args)
  | _ => none

def World.executed (w : World) : List Executed := w.marks.filterMap Event.executed?

/-! ## Middlewares that call `next` once -/

/-- Not `next`, and not a call of the framework's. -/
def Quiet : Op → Prop
  | .next | .enter .. => False
  | _ => True

/-- Whatever it meets, the code calls `next` once. -/
def CallsNextOnce : Code → Prop
  | .ret _ => False
  | .raise _ => False
  | .perform .next k => ∀ r, (k r).All Quiet
  | .perform op k => Quiet op ∧ ∀ r, CallsNextOnce (k r)

/-- A coroutine function that awaits `next()` once, or a plain function that calls it once. -/
structure NextMiddleware (f : PyObject) : Prop where
  enters : f.enters 4 = true
  once : CallsNextOnce (f.body [.req, .res, .ctx, .next])

def middlewareCall (f : PyObject) : Executed := (f.id, [.req, .res, .ctx, .next])

theorem CallsNextOnce.dropNext {p : Code} (h : CallsNextOnce p) : (dropNext p).All Quiet := by
  induction p with
  | ret a => exact h.elim
  | raise e => exact h.elim
  | perform op k ih =>
    cases op with
    | next => exact @dropNext_all _ Quiet (k (.ok ())) (h _)
    | enter id args => exact h.1.elim
    | _ => exact ⟨trivial, fun r => ih r (h.2 r)⟩

theorem CallsNextOnce.attempt_bind {p : Code} (h : CallsNextOnce p)
    {f : Except PyExc Unit → Code} (hf : ∀ r, (f r).All Quiet) :
    CallsNextOnce (p.attempt.bind f) := by
  induction p with
  | ret a => exact h.elim
  | raise e => exact h.elim
  | perform op k ih =>
    cases op with
    | next => exact fun r => (Prog.All.attempt (h r)).bind hf
    | enter id args => exact h.1.elim
    | _ => exact ⟨trivial, fun r => ih r (h.2 r)⟩

theorem recorded_quiet (r : Except PyExc Unit) :
    (match r with
      | .ok _ => (.ret () : Code)
      | .error e => (Op.escaped e).call.bind fun _ => .raise e).All Quiet := by
  cases r with
  | ok a => trivial
  | error e => exact (Prog.All.call trivial).bind fun _ => trivial

/-! ## What a program executes -/

section Adds

variable {env : RequestEnv} {out : Nat → Except String Unit}

theorem executed_step {op : Op} (h : Quiet op) (w : World) :
    (World.step env out op w).2.executed = w.executed := by
  unfold World.executed
  cases op with
  | enter id args => exact h.elim
  | next => exact h.elim
  | escaped e =>
    have hmarks : (World.step env out (.escaped e) w).2.marks = w.marks ++ [.escaped e] := by
      simp [World.step, Event.isMark]
    rw [hmarks, List.filterMap_append]
    exact List.append_nil _
  | _ =>
    refine congrArg (List.filterMap Event.executed?) (marks_step _ w ?_ ?_)
    · intro id args hop
      cases hop
    · intro e hop
      cases hop

/-- The program comes to its end, and executes these bodies. -/
def Adds {α : Type} (env : RequestEnv) (out : Nat → Except String Unit) (p : PyM α)
    (calls : List Executed) : Prop :=
  ∀ w, ∃ a w', Prog.run (World.step env out) p w = (.ok a, w') ∧ w'.executed = w.executed ++ calls

variable {next : Nat → PyM (Except PyExc Unit × Nat)} {calls : List Executed}

theorem Adds.bind {α β : Type} {p : PyM α} {f : α → PyM β} {calls' : List Executed}
    (hp : Adds env out p calls) (hf : ∀ a, Adds env out (f a) calls') :
    Adds env out (p.bind f) (calls ++ calls') := by
  intro w
  obtain ⟨a, w', hrun, hexecuted⟩ := hp w
  obtain ⟨b, w'', hrun', hexecuted'⟩ := hf a w'
  refine ⟨b, w'', ?_, ?_⟩
  · rw [Prog.run_bind, hrun]
    exact hrun'
  · rw [hexecuted', hexecuted, List.append_assoc]

theorem adds_elimNext_quiet {p : Code} (hp : p.All Quiet) (i : Nat) :
    Adds env out (elimNext next p i) [] := by
  induction p generalizing i with
  | ret a => exact fun w => ⟨_, w, rfl, (List.append_nil _).symm⟩
  | raise e => exact fun w => ⟨_, w, rfl, (List.append_nil _).symm⟩
  | perform op k ih =>
    have hop : Quiet op := hp.1
    have helim : elimNext next (.perform op k) i = .perform op fun r => elimNext next (k r) i := by
      cases op with
      | next => exact hop.elim
      | _ => rfl
    intro w
    obtain ⟨a, w', hrun, hexecuted⟩ := ih (World.step env out op w).1 (hp.2 _) i
      (World.step env out op w).2
    rw [executed_step hop] at hexecuted
    refine ⟨a, w', ?_, hexecuted⟩
    rw [helim]
    exact hrun

/-- Code that calls `next` once executes what that call executes. -/
theorem adds_elimNext_once {p : Code} (hp : CallsNextOnce p) {i : Nat}
    (hnext : Adds env out (next i) calls) : Adds env out (elimNext next p i) calls := by
  induction p with
  | ret a => exact hp.elim
  | raise e => exact hp.elim
  | perform op k ih =>
    cases op with
    | next =>
      have hrest (r : Except PyExc Unit × Nat) : Adds env out (elimNext next (k r.1) r.2) [] :=
        adds_elimNext_quiet (hp r.1) r.2
      have hbind := hnext.bind hrest
      rwa [List.append_nil] at hbind
    | enter id args => exact hp.1.elim
    | _ =>
      intro w
      obtain ⟨a, w', hrun, hexecuted⟩ := ih (World.step env out _ w).1 (hp.2 _)
        (World.step env out _ w).2
      rw [executed_step hp.1] at hexecuted
      exact ⟨a, w', hrun, hexecuted⟩

/-! ## The chain -/

theorem invoke_eq_perform {f : PyObject} {args : List Arg} (h : f.enters args.length = true) :
    f.invoke args = .perform (.enter f.id args) fun _ =>
      if f.isCoroutineFunction then f.body args else dropNext (f.body args) := by
  unfold PyObject.enters at h
  simp only [Bool.and_eq_true, Bool.or_eq_true, Bool.not_eq_true'] at h
  obtain ⟨⟨hcallable, haccepts⟩, hasync⟩ := h
  unfold PyObject.invoke
  rw [hcallable, haccepts]
  cases hcoroutine : f.isCoroutineFunction with
  | true =>
    rw [f.coroutine_async hcoroutine]
    rfl
  | false =>
    rw [hasync.resolve_right (by rw [hcoroutine]; exact Bool.noConfusion)]
    rfl

theorem adds_elimNext_middleware {f : PyObject} (hf : NextMiddleware f) {i : Nat}
    (hnext : Adds env out (next i) calls) :
    Adds env out (elimNext next (recorded (f.invoke [.req, .res, .ctx, .next])) i)
      (middlewareCall f :: if f.isCoroutineFunction then calls else []) := by
  have hbody : Adds env out (elimNext next (recorded (if f.isCoroutineFunction then
      f.body [.req, .res, .ctx, .next] else dropNext (f.body [.req, .res, .ctx, .next]))) i)
      (if f.isCoroutineFunction then calls else []) := by
    cases f.isCoroutineFunction with
    | true => exact adds_elimNext_once (hf.once.attempt_bind recorded_quiet) hnext
    | false => exact adds_elimNext_quiet ((Prog.All.attempt hf.once.dropNext).bind recorded_quiet) i
  rw [invoke_eq_perform hf.enters]
  intro w
  obtain ⟨a, w', hrun, hexecuted⟩ := hbody (w.log (.enter f.id [.req, .res, .ctx, .next]))
  refine ⟨a, w', hrun, hexecuted.trans ?_⟩
  have hlog : (w.log (.enter f.id [.req, .res, .ctx, .next])).executed =
      w.executed ++ [middlewareCall f] := by
    unfold World.executed
    rw [marks_log, List.filterMap_append]
    rfl
  rw [hlog, List.append_assoc]
  rfl

/-- The chain goes on behind coroutine functions and ends at the first plain one. -/
def chainCalls (tailCalls : List Executed) : List PyObject → List Executed
  | [] => tailCalls
  | f :: fs =>
    middlewareCall f :: if f.isCoroutineFunction then chainCalls tailCalls fs else []

theorem adds_nextMiddleware {mws : List PyObject} (hmws : ∀ f ∈ mws, NextMiddleware f)
    {tail : Code} {tailCalls : List Executed}
    (htail : ∀ w, (Prog.run (World.step env out) tail w).2.executed = w.executed ++ tailCalls)
    (fuel i : Nat) (hfuel : i + fuel = mws.length) :
    Adds env out (nextMiddleware [.req, .res, .ctx, .next] mws tail fuel i)
      (chainCalls tailCalls (mws.drop i)) := by
  have hend (j : Nat) : Adds env out (tail.attempt.bind fun r => .ret (r, j)) tailCalls := by
    intro w
    refine ⟨((Prog.run (World.step env out) tail w).1, j), _, ?_, htail w⟩
    rw [Prog.run_bind, Prog.run_attempt]
    rfl
  induction fuel generalizing i with
  | zero =>
    rw [List.drop_eq_nil_of_le (by omega)]
    exact hend i
  | succ fuel ih =>
    have hlt : i < mws.length := by omega
    rw [nextMiddleware, List.getElem?_eq_getElem hlt, List.drop_eq_getElem_cons hlt]
    exact adds_elimNext_middleware (hmws _ (List.getElem_mem hlt)) (ih (i + 1) (by omega))

theorem chainCalls_eq_iff {tailCalls : List Executed} (htail : tailCalls ≠ [])
    (mws : List PyObject) : chainCalls tailCalls mws = mws.map middlewareCall ++ tailCalls ↔
      ∀ f ∈ mws, f.isCoroutineFunction = true := by
  induction mws with
  | nil => simp [chainCalls]
  | cons f fs ih =>
    rw [chainCalls, List.map_cons, List.cons_append, List.cons_inj_right, List.forall_mem_cons, ← ih]
    cases f.isCoroutineFunction with
    | true => simp
    | false =>
      refine iff_of_false (fun h => htail ?_) fun h => Bool.noConfusion h.1
      exact (List.append_eq_nil_iff.mp h.symm).2

/-! ## The request -/

variable {app : App} {handler : PyObject}

theorem executed_of_marks {w w' : World} {new : List Event} (h : w'.marks = w.marks ++ new) :
    w'.executed = w.executed ++ new.filterMap Event.executed? := by
  unfold World.executed
  rw [h, List.filterMap_append]

theorem executed_excMarks (e : PyExc) : (excMarks app e).filterMap Event.executed? = [] := by
  unfold excMarks
  cases app.exceptionHandler.getHandler e with
  | none => rfl
  | some h =>
    dsimp only
    split_ifs
    · rfl
    · rfl

theorem executed_run_executeHandler (hhandler : Plain handler) (henters : handler.enters 3 = true)
    (hexc : ∀ e h, app.exceptionHandler.getHandler e = some h → Plain h) (w : World) :
    (Prog.run (World.step env out) (app.executeHandler env handler) w).2.executed =
      w.executed ++ [(handler.id, [.req, .res, .ctx])] := by
  have hinvoke : (Prog.run (World.step env out) (handler.invoke [.req, .res, .ctx]) w).2.marks =
      w.marks ++ [.enter handler.id [.req, .res, .ctx]] := by
    rw [marks_run_invoke hhandler]
    exact congrArg _ (if_pos henters)
  have hmarks := @marks_run_executeHandler env out app hexc handler w
  rw [hinvoke, List.append_assoc] at hmarks
  refine (executed_of_marks hmarks).trans (congrArg _ ?_)
  split
  next => rfl
  next e _ =>
    rw [List.filterMap_append]
    split_ifs
    · exact congrArg _ ((List.filterMap_cons_none rfl).trans (executed_excMarks e))
    · rfl

/-- The middlewares that are applied to a request of the route. -/
def App.chain (app : App) (env : RequestEnv) (middleware : List PyObject) : List PyObject :=
  app.applicableMiddleware env.path ++ middleware

theorem executed_run_runPipeline {mws : List PyObject} (hsome : mws ≠ [])
    (hmws : ∀ f ∈ mws, NextMiddleware f) (hhandler : Plain handler)
    (henters : handler.enters 3 = true)
    (hexc : ∀ e h, app.exceptionHandler.getHandler e = some h → Plain h) (w : World) :
    (Prog.run (World.step env out) (app.runPipeline env handler mws) w).2.executed =
      w.executed ++ chainCalls [(handler.id, [.req, .res, .ctx])] mws := by
  obtain ⟨⟨r, i⟩, w', hrun, hexecuted⟩ := adds_nextMiddleware hmws
    (@executed_run_executeHandler env out app handler hhandler henters hexc) mws.length 0
    (Nat.zero_add _) w
  have hchain : Prog.run (World.step env out)
      (runChain [.req, .res, .ctx, .next] mws (app.executeHandler env handler)) w = (r, w') := by
    unfold runChain
    rw [Prog.run_bind, hrun]
    exact Prog.run_ofExcept r w'
  rw [App.runPipeline, if_neg (by simpa using hsome), Prog.run_bind, Prog.run_attempt, hchain]
  refine Eq.trans ?_ hexecuted
  cases r with
  | ok a => rfl
  | error e =>
    dsimp only
    split_ifs
    · have hmarks := executed_of_marks (@marks_run_handleException env out app hexc e w')
      rw [hmarks, executed_excMarks, List.append_nil]
    · rfl

def afterMarks (f : PyObject) : List Event :=
  if f.enters 3 then [.enter f.id [.req, .res, .ctx]] else []

theorem mem_afterMarks {f : PyObject} {ev : Event} (h : ev ∈ afterMarks f) :
    ev = .enter f.id [.req, .res, .ctx] := by
  unfold afterMarks at h
  split_ifs at h
  · exact List.mem_singleton.mp h
  · cases h

/-- Behind the chain only after-handlers are called. -/
theorem marks_run_runAfter {handlers : List PyObject} (hplain : ∀ f ∈ handlers, Plain f)
    (w : World) : ∃ last, (Prog.run (World.step env out) (App.runAfter handlers) w).2.marks =
      w.marks ++ last ∧ ∀ ev ∈ last, ∃ f ∈ handlers, ev = .enter f.id [.req, .res, .ctx] := by
  induction handlers generalizing w with
  | nil => exact ⟨[], (List.append_nil _).symm, nofun⟩
  | cons f fs ih =>
    obtain ⟨hf, hfs⟩ := List.forall_mem_cons.mp hplain
    have hinvoke : (Prog.run (World.step env out) (f.invoke [.req, .res, .ctx]) w).2.marks =
        w.marks ++ afterMarks f := marks_run_invoke hf _ w
    have hfirst : ∀ ev ∈ afterMarks f, ∃ g ∈ f :: fs, ev = .enter g.id [.req, .res, .ctx] :=
      fun ev hev => ⟨f, List.mem_cons_self, mem_afterMarks hev⟩
    have hgo (w' : World) (hw' : w'.marks = w.marks ++ afterMarks f) :
        ∃ last, (Prog.run (World.step env out) (App.runAfter fs) w').2.marks = w.marks ++ last ∧
          ∀ ev ∈ last, ∃ g ∈ f :: fs, ev = .enter g.id [.req, .res, .ctx] := by
      obtain ⟨last, hlast, hall⟩ := ih hfs w'
      refine ⟨afterMarks f ++ last, ?_, List.forall_mem_append.mpr ⟨hfirst, fun ev hev => ?_⟩⟩
      · rw [hlast, hw', List.append_assoc]
      · obtain ⟨g, hg, rfl⟩ := hall ev hev
        exact ⟨g, List.mem_cons_of_mem _ hg, rfl⟩
    rw [App.runAfter, App.suppress, Prog.bind_assoc, Prog.run_bind, Prog.run_attempt]
    rcases hrun : Prog.run (World.step env out) (f.invoke [.req, .res, .ctx]) w with ⟨e | _, w'⟩
    · rw [hrun] at hinvoke
      dsimp only
      split_ifs
      · exact hgo w' hinvoke
      · exact ⟨afterMarks f, hinvoke, hfirst⟩
    · rw [hrun] at hinvoke
      exact hgo w' hinvoke

variable {middleware : List PyObject}

/-- Once the before-handlers have let the request pass, the wrapper runs the pipeline and then
after-handlers only. -/
theorem marks_run_wrapped_passed {w w' : World} (hfactory : env.factoryError = none)
    (hafter : ∀ f ∈ app.afterHandlers, Plain f)
    (hbefore : Prog.run (World.step env out) (app.runBefore app.beforeHandlers) w =
      (.ok false, w')) :
    ∃ last, (Prog.run (World.step env out) (app.wrapped env handler middleware) w).2.marks =
      (Prog.run (World.step env out)
        (app.runPipeline env handler (app.chain env middleware)) w').2.marks ++ last ∧
      ∀ ev ∈ last, ∃ f ∈ app.afterHandlers, ev = .enter f.id [.req, .res, .ctx] := by
  have hbody : ∃ last, (Prog.run (World.step env out)
      (app.tryBody env handler middleware) w).2.marks = (Prog.run (World.step env out)
        (app.runPipeline env handler (app.chain env middleware)) w').2.marks ++ last ∧
      ∀ ev ∈ last, ∃ f ∈ app.afterHandlers, ev = .enter f.id [.req, .res, .ctx] := by
    rw [App.tryBody, Prog.run_bind, hbefore]
    dsimp only
    rw [if_neg Bool.false_ne_true, Prog.run_bind, App.chain]
    rcases Prog.run (World.step env out) (app.runPipeline env handler
      (app.applicableMiddleware env.path ++ middleware)) w' with ⟨e | _, w''⟩
    · exact ⟨[], (List.append_nil _).symm, fun ev hev => absurd hev List.not_mem_nil⟩
    · exact marks_run_runAfter hafter w''
  obtain ⟨last, hlast, hall⟩ := hbody
  refine ⟨last, ?_, hall⟩
  rw [← hlast, App.wrapped, hfactory]
  dsimp only
  rw [Prog.run_finallyDo]
  generalize Prog.run (World.step env out) (app.tryBody env handler middleware) w = s
  have hfinal : (Prog.run (World.step env out) (App.finalizeBlock env) s.2).2.marks = s.2.marks :=
    marks_run_finalizeBlock s.2
  rw [← hfinal]
  rcases Prog.run (World.step env out) (App.finalizeBlock env) s.2 with ⟨_ | _, _⟩ <;> rfl

/-- A program only adds to the marks. -/
theorem marks_run_append {α : Type} (p : PyM α) (w : World) :
    ∃ new, (Prog.run (World.step env out) p w).2.marks = w.marks ++ new := by
  have hkeeps : Prog.Preserves (World.step env out)
      (fun w' => ∃ new, w'.marks = w.marks ++ new) p := by
    apply Prog.Preserves.of_step
    intro op w' hw'
    obtain ⟨new, hnew⟩ := hw'
    cases op with
    | enter id args =>
      refine ⟨new ++ [.enter id args], ?_⟩
      rw [World.step, marks_log, hnew, List.append_assoc]
      rfl
    | escaped e =>
      refine ⟨new ++ [.escaped e], ?_⟩
      rw [World.step, marks_log, hnew, List.append_assoc]
      rfl
    | _ =>
      refine ⟨new, (marks_step _ w' ?_ ?_).trans hnew⟩
      · intro id args hop
        cases hop
      · intro e hop
        cases hop
  exact hkeeps w ⟨[], (List.append_nil _).symm⟩

end Adds

/-! ## Whether the chain comes to the handler -/

/-- A request that the before-handlers let pass, for a route with middlewares. -/
structure ChainRequest where
  app : App
  env : RequestEnv
  out : Nat → Except String Unit
  handler : PyObject
  /-- The route's own. -/
  middleware : List PyObject
  start : World
  passed : World
  made : env.factoryError = none
  before_passed : Prog.run (World.step env out) (app.runBefore app.beforeHandlers) start =
    (.ok false, passed)
  chain_some : app.chain env middleware ≠ []
  chain_next : ∀ f ∈ app.chain env middleware, NextMiddleware f
  handler_plain : Plain handler
  handler_enters : handler.enters 3 = true
  excHandlers_plain : ∀ e h, app.exceptionHandler.getHandler e = some h → Plain h
  after_plain : ∀ f ∈ app.afterHandlers, Plain f

namespace ChainRequest

variable (r : ChainRequest)

/-- Every middleware is executed once, in order, then the handler once, and only then
after-handlers. -/
def Completes : Prop :=
  ∃ chain last,
    (Prog.run (World.step r.env r.out)
      (r.app.runPipeline r.env r.handler (r.app.chain r.env r.middleware)) r.passed).2.marks =
        r.passed.marks ++ chain ∧
    (Prog.run (World.step r.env r.out) (r.app.wrapped r.env r.handler r.middleware)
      r.start).2.marks = r.passed.marks ++ (chain ++ last) ∧
    chain.filterMap Event.executed? =
      (r.app.chain r.env r.middleware).map middlewareCall ++ [(r.handler.id, [.req, .res, .ctx])] ∧
    ∀ ev ∈ last, ∃ f ∈ r.app.afterHandlers, ev = .enter f.id [.req, .res, .ctx]

theorem completes_iff_calls : r.Completes ↔
    chainCalls [(r.handler.id, [.req, .res, .ctx])] (r.app.chain r.env r.middleware) =
      (r.app.chain r.env r.middleware).map middlewareCall ++
        [(r.handler.id, [.req, .res, .ctx])] := by
  have hexecuted := @executed_run_runPipeline r.env r.out r.app r.handler _ r.chain_some
    r.chain_next r.handler_plain r.handler_enters r.excHandlers_plain r.passed
  obtain ⟨chain, hchain⟩ := @marks_run_append r.env r.out _
    (r.app.runPipeline r.env r.handler (r.app.chain r.env r.middleware)) r.passed
  have hcalls : chain.filterMap Event.executed? =
      chainCalls [(r.handler.id, [.req, .res, .ctx])] (r.app.chain r.env r.middleware) :=
    List.append_cancel_left ((executed_of_marks hchain).symm.trans hexecuted)
  constructor
  · rintro ⟨chain', last, hchain', -, hmws, -⟩
    obtain rfl : chain = chain' := List.append_cancel_left (hchain.symm.trans hchain')
    exact hcalls.symm.trans hmws
  · intro h
    obtain ⟨last, hlast, hall⟩ := @marks_run_wrapped_passed r.env r.out r.app r.handler
      r.middleware r.start r.passed r.made r.after_plain r.before_passed
    refine ⟨chain, last, hchain, ?_, hcalls.trans h, hall⟩
    rw [hlast, hchain, List.append_assoc]

theorem completes_iff : r.Completes ↔
    ∀ f ∈ r.app.chain r.env r.middleware, f.isCoroutineFunction = true :=
  r.completes_iff_calls.trans (chainCalls_eq_iff (List.cons_ne_nil _ _) _)

/-- `def sync_middleware(req, res, ctx, next): next()` -/
def syncMiddleware : PyObject :=
  { asyncDef 1 4 fun _ => .perform .next fun _ => .ret () with
    isCoroutineFunction := false, asyncBody := false, coroutine_async := not_coroutine }

def syncRequest : ChainRequest where
  app := ⟨[], [], [], ⟨[], none⟩⟩
  env := ⟨"0123456789abcdef", none, "/", []⟩
  out := fun _ => .ok ()
  handler := asyncDef 0 3 fun _ => .ret ()
  middleware := [syncMiddleware]
  start := ⟨.empty, []⟩
  passed := ⟨.empty, []⟩
  made := rfl
  before_passed := rfl
  chain_some := List.cons_ne_nil _ _
  chain_next := List.forall_mem_singleton.mpr ⟨rfl, fun _ => trivial⟩
  handler_plain := fun _ => trivial
  handler_enters := rfl
  excHandlers_plain := getHandler_empty_plain
  after_plain := fun _ h => absurd h List.not_mem_nil

/-- The coroutine that a plain middleware gets from `next()` is dropped, and with it the
handler. -/
theorem sync_middleware_drops_handler : ¬ ∀ r : ChainRequest, r.Completes := by
  intro h
  exact absurd (syncRequest.completes_iff_calls.mp (h syncRequest)) (by decide)

end ChainRequest

end Hypern.Application
