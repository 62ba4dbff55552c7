import Hypern.Middleware.BasicAuth
import Hypern.Middleware.Cors

/-! The middlewares of `builtin.rs` that only watch a request: the loggers, the request id, the
headers for security, the deadline and the preferred compression. -/

namespace Hypern.Middleware

open Http Lib

abbrev MwStep (α : Type) := Prog CtxOp CtxOp.Res Empty α

/-- `add_response_header` and `set_state`, and what is asked of the clock and told to the log. -/
def addHeader (name value : String) : MwStep Unit := Prog.call (CtxOp.addResponseHeader name value)

def putState (key : String) (value : StateValue) : MwStep Unit :=
  Prog.call (CtxOp.setState key value)

def tellLog (message : String) : MwStep Unit :=
  (Prog.call (CtxOp.outside ("log " ++ message))).bind fun _ => .ret ()

/-- `n as i64` -/
def asI64 (n : Nat) : Int := Int.bmod n (2 ^ 64)

/-- Nanoseconds from a moment until now, none of them if it is still to come. -/
def elapsedNanos (since : String) : MwStep Nat :=
  (Prog.call (CtxOp.outside ("elapsed " ++ since))).bind fun (answer : String) =>
    .ret ((answer.toNat?).getD 0)

/-! ## The loggers -/

structure LogConfig where
  logHeaders : Bool := false
  skipPaths : List String := ["/health", "/favicon.ico"]

def LogConfig.skips (config : LogConfig) (path : String) : Bool :=
  config.skipPaths.any (·.toList.isPrefixOf path.toList)

def tellHeaders (requestId : String) : List (Σ _ : String, String) → MwStep Unit
  | [] => .ret ()
  | header :: headers =>
    (tellLog ("[" ++ requestId ++ "] Header: " ++ header.1 ++ "=" ++ header.2)).bind fun _ =>
      tellHeaders requestId headers

def LogConfig.tellHeaders (config : LogConfig) (requestId : String) : MwStep Unit :=
  if config.logHeaders then
    (Prog.call CtxOp.headers).bind fun (headers : StrMap) =>
      Middleware.tellHeaders requestId headers.entries
  else .ret ()

def everywhere (execute : MwCode) : RustMiddleware := ⟨execute, fun _ => true, fun _ => true⟩

def logMiddleware (config : LogConfig) : RustMiddleware :=
  everywhere <|
    (Prog.call CtxOp.path).bind fun (path : String) =>
    if config.skips path then .ret .next
    else
      (Prog.call CtxOp.method).bind fun (method : HttpMethod) =>
      (Prog.call CtxOp.requestId).bind fun (requestId : String) =>
      (tellLog (method.asStr ++ " " ++ path ++ " " ++ requestId)).bind fun _ =>
      (config.tellHeaders requestId).bind fun _ =>
      (elapsedNanos "start_time").bind fun nanos =>
      (putState "log_start_time" (.int (asI64 nanos))).bind fun _ => .ret .next

def logAfterMiddleware (config : LogConfig) : RustMiddleware :=
  everywhere <|
    (Prog.call CtxOp.path).bind fun (path : String) =>
    if config.skips path then .ret .next
    else
      (elapsedNanos "start_time").bind fun nanos =>
      (Prog.call CtxOp.requestId).bind fun (requestId : String) =>
      (tellLog ("[" ++ requestId ++ "] Request completed in " ++ toString (nanos / 1000000) ++ "ms")).bind
        fun _ => .ret .next

/-! ## What is added to requests and responses -/

structure RequestIdMiddleware where
  headerName : String := "X-Request-ID"
  trustIncoming : Bool := true

def RequestIdMiddleware.toRustMiddleware (c : Crates) (mw : RequestIdMiddleware) : RustMiddleware :=
  everywhere <|
    (if mw.trustIncoming then
      (Prog.call (CtxOp.getHeader (c.toLowercase mw.headerName)) : MwStep (Option String))
    else .ret none).bind fun header =>
    (Prog.call CtxOp.requestId).bind fun (own : String) =>
      let requestId := header.getD own
      (addHeader mw.headerName requestId).bind fun _ =>
      (putState "request_id" (.string requestId)).bind fun _ => .ret .next

structure SecurityHeadersConfig where
  contentTypeOptions : Bool := true
  frameOptions : Option String := some "DENY"
  xssProtection : Bool := true
  hsts : Option String := some "max-age=31536000; includeSubDomains"
  csp : Option String := none
  referrerPolicy : Option String := some "strict-origin-when-cross-origin"
  permissionsPolicy : Option String := none

/-- The fields that are added, in this order. -/
def SecurityHeadersConfig.fields (config : SecurityHeadersConfig) : List (String × String) :=
  (if config.contentTypeOptions then [("X-Content-Type-Options", "nosniff")] else []) ++
    (config.frameOptions.map ("X-Frame-Options", ·)).toList ++
    (if config.xssProtection then [("X-XSS-Protection", "1; mode=block")] else []) ++
    (config.hsts.map ("Strict-Transport-Security", ·)).toList ++
    (config.csp.map ("Content-Security-Policy", ·)).toList ++
    (config.referrerPolicy.map ("Referrer-Policy", ·)).toList ++
    (config.permissionsPolicy.map ("Permissions-Policy", ·)).toList

def addHeaders : List (String × String) → MwStep Unit
  | [] => .ret ()
  | h :: hs => (addHeader h.1 h.2).bind fun _ => addHeaders hs

def securityHeadersMiddleware (config : SecurityHeadersConfig) : RustMiddleware :=
  everywhere ((addHeaders config.fields).bind fun _ => .ret .next)

/-- The timeout in milliseconds. From `2 ^ 63` seconds on `start_time + timeout` overflows, and panics;
the bound leaves as many to the clock as to the timeout. -/
structure TimeoutMiddleware where
  timeout : Nat
  bounded : timeout < 2 ^ 62 * 1000

def TimeoutMiddleware.toRustMiddleware (mw : TimeoutMiddleware) : RustMiddleware :=
  everywhere <|
    (elapsedNanos ("start_time + " ++ toString mw.timeout ++ "ms")).bind fun nanos =>
    (putState "request_deadline" (.int (asI64 nanos))).bind fun _ =>
    (putState "request_timeout_ms" (.int (asI64 mw.timeout))).bind fun _ => .ret .next

/-- `haystack.contains(needle)` -/
def containsText (needle haystack : String) : Bool := decide (needle.toList <:+: haystack.toList)

/-- The encoding that `Accept-Encoding` names, the best one first. -/
def preferredEncoding (acceptEncoding : String) : Option String :=
  if containsText "br" acceptEncoding then some "br"
  else if containsText "gzip" acceptEncoding then some "gzip"
  else if containsText "deflate" acceptEncoding then some "deflate"
  else none

def compressionMiddleware (minSize : Nat) : RustMiddleware :=
  everywhere <|
    (Prog.call (CtxOp.getHeader "accept-encoding")).bind fun (header : Option String) =>
      (match preferredEncoding (header.getD "") with
        | some encoding => putState "compression" (.string encoding)
        | none => .ret ()).bind fun _ =>
      (putState "compression_min_size" (.int (asI64 minSize))).bind fun _ => .ret .next

/-! ## Watching and not being watched -/

/-- A question to the clock or a message to the log. -/
def Quiet (question : String) : Prop :=
  "log ".toList <+: question.toList ∨ "elapsed ".toList <+: question.toList

/-- What an observer does. -/
def CtxOp.Watches : CtxOp → Prop
  | .path | .method | .queryString | .requestId | .headers | .getHeader _ | .addResponseHeader _ _
  | .setState _ _ => True
  | .outside question => Quiet question
  | _ => False

/-- What shows nothing of an observer. -/
def CtxOp.Blind : CtxOp → Prop
  | .getResponseHeaders | .getState _ => False
  | .outside question => ¬ Quiet question
  | _ => True

structure Observer (m : RustMiddleware) : Prop where
  watches : m.execute.All CtxOp.Watches
  goesOn : m.execute.Returns (· = .next)

def Unaware (m : RustMiddleware) : Prop := m.execute.All CtxOp.Blind

theorem all_call {P : CtxOp → Prop} {op : CtxOp} (h : P op) :
    (Prog.call op : MwStep op.Res).All P := Prog.All.call h

theorem quiet_log (message : String) : Quiet ("log " ++ message) := by
  left
  rw [String.toList_append]
  exact List.prefix_append _ _

theorem quiet_elapsed (since : String) : Quiet ("elapsed " ++ since) := by
  right
  rw [String.toList_append]
  exact List.prefix_append _ _

theorem watches_tellLog (message : String) : (tellLog message).All CtxOp.Watches :=
  (all_call (quiet_log message)).bind fun _ => trivial

theorem watches_elapsedNanos (since : String) : (elapsedNanos since).All CtxOp.Watches :=
  (all_call (quiet_elapsed since)).bind fun _ => trivial

theorem watches_putState (key : String) (value : StateValue) :
    (putState key value).All CtxOp.Watches := all_call trivial

theorem watches_addHeader (name value : String) : (addHeader name value).All CtxOp.Watches :=
  all_call trivial

theorem watches_addHeaders (hs : List (String × String)) : (addHeaders hs).All CtxOp.Watches := by
  induction hs with
  | nil => trivial
  | cons h hs ih => exact (watches_addHeader _ _).bind fun _ => ih

theorem watches_tellHeaders (requestId : String) (headers : List (Σ _ : String, String)) :
    (tellHeaders requestId headers).All CtxOp.Watches := by
  induction headers with
  | nil => trivial
  | cons header headers ih => exact (watches_tellLog _).bind fun _ => ih

theorem LogConfig.watches_tellHeaders (config : LogConfig) (requestId : String) :
    (config.tellHeaders requestId).All CtxOp.Watches := by
  unfold tellHeaders
  split_ifs
  · exact (all_call trivial).bind fun headers => Middleware.watches_tellHeaders _ _
  · trivial

theorem observer_log (config : LogConfig) : Observer (logMiddleware config) := by
  constructor
  · refine (all_call trivial).bind fun path => ?_
    split_ifs
    · trivial
    · refine (all_call trivial).bind fun method => (all_call trivial).bind fun requestId => ?_
      exact (watches_tellLog _).bind fun _ => (config.watches_tellHeaders _).bind fun _ =>
        (watches_elapsedNanos _).bind fun _ => (watches_putState _ _).bind fun _ => trivial
  · refine .bind fun path => ?_
    split_ifs
    · rfl
    · exact .bind fun _ => .bind fun _ => .bind fun _ => .bind fun _ => .bind fun _ => .bind fun _ => rfl

theorem observer_logAfter (config : LogConfig) : Observer (logAfterMiddleware config) := by
  constructor
  · refine (all_call trivial).bind fun path => ?_
    split_ifs
    · trivial
    · exact (watches_elapsedNanos _).bind fun _ => (all_call trivial).bind fun _ =>
        (watches_tellLog _).bind fun _ => trivial
  · refine .bind fun path => ?_
    split_ifs
    · rfl
    · exact .bind fun _ => .bind fun _ => .bind fun _ => rfl

theorem observer_requestId (c : Crates) (mw : RequestIdMiddleware) :
    Observer (mw.toRustMiddleware c) := by
  constructor
  · refine Prog.All.bind ?_ fun header => (all_call trivial).bind fun own =>
      (watches_addHeader _ _).bind fun _ => (watches_putState _ _).bind fun _ => trivial
    split_ifs
    · exact all_call trivial
    · trivial
  · exact .bind fun _ => .bind fun _ => .bind fun _ => .bind fun _ => rfl

theorem observer_securityHeaders (config : SecurityHeadersConfig) :
    Observer (securityHeadersMiddleware config) :=
  ⟨(watches_addHeaders _).bind fun _ => trivial, .bind fun _ => rfl⟩

theorem observer_timeout (mw : TimeoutMiddleware) : Observer mw.toRustMiddleware :=
  ⟨(watches_elapsedNanos _).bind fun _ => (watches_putState _ _).bind fun _ =>
    (watches_putState _ _).bind fun _ => trivial, .bind fun _ => .bind fun _ => .bind fun _ => rfl⟩

theorem observer_compression (minSize : Nat) : Observer (compressionMiddleware minSize) := by
  refine ⟨(all_call trivial).bind fun header => Prog.All.bind ?_ fun _ =>
    (watches_putState _ _).bind fun _ => trivial, .bind fun _ => .bind fun _ => .bind fun _ => rfl⟩
  cases preferredEncoding _ with
  | none => trivial
  | some encoding => exact watches_putState _ _

theorem unaware_basicAuth (mw : BasicAuthMiddleware) : Unaware mw.toRustMiddleware := by
  refine (all_call trivial).bind fun header => ?_
  cases header with
  | none => trivial
  | some header =>
    dsimp only
    cases BasicAuthMiddleware.decodeBasicAuth header with
    | none => trivial
    | some credentials =>
      dsimp only
      split_ifs
      · exact (all_call trivial).bind fun _ => trivial
      · trivial

theorem unaware_cors (mw : CorsMiddleware) : Unaware mw.toRustMiddleware := by
  have hadd : ∀ b name value, (CorsMiddleware.addHeaderIf b name value).All CtxOp.Blind := by
    intro b name value
    unfold CorsMiddleware.addHeaderIf
    split_ifs
    · exact all_call trivial
    · trivial
  refine (all_call trivial).bind fun header => ?_
  dsimp only
  split_ifs
  · trivial
  · trivial
  · exact (hadd _ _ _).bind fun _ => (hadd _ _ _).bind fun _ => (hadd _ _ _).bind fun _ =>
      (all_call trivial).bind fun _ => trivial

/-! ## Requests that differ in what observers leave -/

/-- The context without the response headers and the values of the state. -/
def MiddlewareContext.seen (ctx : MiddlewareContext) : MiddlewareContext :=
  { ctx with responseHeaders := [], state := some { ctx.state.getD {} with values := ∅ } }

theorem MiddlewareContext.isAuthenticated_seen (ctx : MiddlewareContext) :
    (ctx.state.map (·.isAuthenticated)).getD false =
      (ctx.seen.state.map (·.isAuthenticated)).getD false := by
  unfold seen
  cases ctx.state <;> rfl

theorem MiddlewareContext.userId_seen (ctx : MiddlewareContext) :
    ctx.state.bind (·.userId) = ctx.seen.state.bind (·.userId) := by
  unfold seen
  cases ctx.state <;> rfl

theorem MiddlewareContext.hasRole_seen (ctx : MiddlewareContext) (role : String) :
    (ctx.state.map (·.roles.contains role)).getD false =
      (ctx.seen.state.map (·.roles.contains role)).getD false := by
  unfold seen
  cases ctx.state <;> rfl

section Chain

variable {σ : Type} {c : Crates} {outside : String → σ → String × σ}

/-- `W` relates worlds that differ in nothing but the log and the clock: no other question tells
them apart. -/
structure Discreet (outside : String → σ → String × σ) (W : σ → σ → Prop) : Prop where
  refl : ∀ w, W w w
  quiet : ∀ q w w', Quiet q → W w w' → W (outside q w).2 w'
  asks : ∀ q w w', ¬ Quiet q → W w w' →
    (outside q w).1 = (outside q w').1 ∧ W (outside q w).2 (outside q w').2

structure SameView (W : σ → σ → Prop) (x x' : Exchange σ) : Prop where
  ctx : x.ctx.seen = x'.ctx.seen
  world : W x.world x'.world

variable {W : σ → σ → Prop} {x x' : Exchange σ}

theorem SameView.record_left (h : SameView W x x') (e : Entry) : SameView W (x.record e) x' := ⟨h.ctx, h.world⟩

theorem SameView.record_right (h : SameView W x x') (e : Entry) : SameView W x (x'.record e) := ⟨h.ctx, h.world⟩

theorem SameView.perform_watches (h : SameView W x x') (hW : Discreet outside W) {op : CtxOp}
    (hop : op.Watches) : SameView W (Exchange.perform c outside op x).2 x' := by
  cases op with
  | path | method | queryString | requestId | headers | getHeader => exact h
  | addResponseHeader | setState => exact ⟨h.ctx, h.world⟩
  | outside question => exact ⟨h.ctx, hW.quiet question _ _ hop h.world⟩
  | _ => exact hop.elim

theorem SameView.perform_blind (h : SameView W x x') (hW : Discreet outside W) {op : CtxOp}
    (hop : op.Blind) :
    (Exchange.perform c outside op x).1 = (Exchange.perform c outside op x').1 ∧
      SameView W (Exchange.perform c outside op x).2 (Exchange.perform c outside op x').2 := by
  obtain ⟨hctx, hworld⟩ := h
  cases op with
  | path => exact ⟨congrArg (·.path) hctx, hctx, hworld⟩
  | method => exact ⟨congrArg (·.method) hctx, hctx, hworld⟩
  | queryString => exact ⟨congrArg (·.queryString) hctx, hctx, hworld⟩
  | requestId => exact ⟨congrArg (·.requestId) hctx, hctx, hworld⟩
  | bodyBytes => exact ⟨congrArg (·.body) hctx, hctx, hworld⟩
  | getResponseHeaders | getState => exact hop.elim
  | headers => exact ⟨congrArg (·.headers) hctx, hctx, hworld⟩
  | getHeader name => exact ⟨congrArg (·.getHeader c name) hctx, hctx, hworld⟩
  | setHeader name value => exact ⟨rfl, congrArg (·.setHeader c name value) hctx, hworld⟩
  | removeHeader name =>
    exact ⟨congrArg (fun ctx => (ctx.removeHeader c name).1) hctx,
      congrArg (fun ctx => (ctx.removeHeader c name).2) hctx, hworld⟩
  | getQuery name =>
    exact ⟨congrArg (fun ctx => (ctx.getQuery c name).1) hctx,
      congrArg (fun ctx => (ctx.getQuery c name).2) hctx, hworld⟩
  | setQuery name value => exact ⟨rfl, congrArg (·.setQuery c name value) hctx, hworld⟩
  | removeQuery name =>
    exact ⟨congrArg (fun ctx => (ctx.removeQuery c name).1) hctx,
      congrArg (fun ctx => (ctx.removeQuery c name).2) hctx, hworld⟩
  | getParam name => exact ⟨congrArg (·.pathParams.lookup name) hctx, hctx, hworld⟩
  | setParam name value =>
    exact ⟨rfl, congrArg (fun ctx => { ctx with pathParams := ctx.pathParams.insert name value }) hctx,
      hworld⟩
  | setBody body => exact ⟨rfl, congrArg (fun ctx => { ctx with body := some body }) hctx, hworld⟩
  | clearBody => exact ⟨rfl, congrArg (fun ctx => { ctx with body := none }) hctx, hworld⟩
  | takeBody =>
    exact ⟨congrArg (·.body) hctx, congrArg (fun ctx => { ctx with body := none }) hctx, hworld⟩
  | setPath path => exact ⟨rfl, congrArg (fun ctx => { ctx with path }) hctx, hworld⟩
  | setQueryString queryString =>
    exact ⟨rfl, congrArg (fun ctx => { ctx with queryString }) hctx, hworld⟩
  | addResponseHeader | setState => exact ⟨rfl, hctx, hworld⟩
  | setAuthenticated userId roles => exact ⟨rfl, congrArg (·.setAuthenticated userId roles) hctx, hworld⟩
  | isAuthenticated =>
    refine ⟨?_, hctx, hworld⟩
    change (x.ctx.state.map (·.isAuthenticated)).getD false = (x'.ctx.state.map _).getD false
    rw [x.ctx.isAuthenticated_seen, x'.ctx.isAuthenticated_seen, hctx]
  | userId =>
    refine ⟨?_, hctx, hworld⟩
    change x.ctx.state.bind (·.userId) = x'.ctx.state.bind (·.userId)
    rw [x.ctx.userId_seen, x'.ctx.userId_seen, hctx]
  | hasRole role =>
    refine ⟨?_, hctx, hworld⟩
    change (x.ctx.state.map (·.roles.contains role)).getD false = (x'.ctx.state.map _).getD false
    rw [x.ctx.hasRole_seen, x'.ctx.hasRole_seen, hctx]
  | outside question =>
    obtain ⟨hanswer, hworld'⟩ := hW.asks question _ _ hop hworld
    exact ⟨hanswer, hctx, hworld'⟩

/-- A middleware that is unaware of observers does the same to both. -/
theorem Unaware.run {m : RustMiddleware} (hm : Unaware m) (hW : Discreet outside W) (h : SameView W x x') :
    (m.run c outside x).1 = (m.run c outside x').1 ∧
      SameView W (m.run c outside x).2 (m.run c outside x').2 := by
  have hrun : (Prog.run (Exchange.step c outside) m.execute x).1 =
        (Prog.run (Exchange.step c outside) m.execute x').1 ∧
      SameView W (Prog.run (Exchange.step c outside) m.execute x).2
        (Prog.run (Exchange.step c outside) m.execute x').2 :=
    Prog.All.run_related (fun op s t hop hst => ⟨congrArg Except.ok (hst.perform_blind hW hop).1,
      (hst.perform_blind hW hop).2⟩) hm h
  unfold RustMiddleware.run
  generalize Prog.run (Exchange.step c outside) m.execute x = r at hrun ⊢
  generalize Prog.run (Exchange.step c outside) m.execute x' = r' at hrun ⊢
  obtain ⟨result | result, y⟩ := r
  · exact nomatch result
  · obtain ⟨result' | result', y'⟩ := r'
    · exact nomatch result'
    · exact ⟨Except.ok.inj hrun.1, hrun.2⟩

/-- An observer lets the request go on, and leaves it as others see it. -/
theorem Observer.run {o : RustMiddleware} (ho : Observer o) (hW : Discreet outside W)
    (h : SameView W x x') :
    (o.run c outside x).1 = .next ∧ SameView W (o.run c outside x).2 x' := by
  have hpreserves : Prog.Preserves (Exchange.step c outside) (fun y => SameView W y x') o.execute :=
    Prog.All.preserves (fun op y hop hy => hy.perform_watches hW hop) ho.watches
  have hrun := hpreserves x h
  unfold RustMiddleware.run
  split
  next r y heq =>
    rw [heq] at hrun
    exact ⟨ho.goesOn.run heq, hrun⟩
  next e _ _ => exact nomatch e

/-- `ms` is `ms'` and observers in between. -/
inductive Watched : List RustMiddleware → List RustMiddleware → Prop
  | nil : Watched [] []
  | keep {m : RustMiddleware} {ms ms' : List RustMiddleware} (hm : Unaware m) (h : Watched ms ms') :
    Watched (m :: ms) (m :: ms')
  | watch {o : RustMiddleware} {ms ms' : List RustMiddleware} (ho : Observer o) (h : Watched ms ms') :
    Watched (o :: ms) ms'

open MiddlewareChain

variable {ms ms' : List RustMiddleware} {phase : Phase} {path : String} {method : HttpMethod}

theorem Watched.execute (h : Watched ms ms') (hW : Discreet outside W) (hx : SameView W x x') (i j : Nat) :
    (execute c outside phase path method ms i x).1 = (execute c outside phase path method ms' j x').1 ∧
      SameView W (execute c outside phase path method ms i x).2
        (execute c outside phase path method ms' j x').2 := by
  induction h generalizing i j x x' with
  | nil => exact ⟨rfl, hx⟩
  | @keep m ms ms' hm _ ih =>
    cases happlies : m.applies path method with
    | false =>
      rw [execute_cons_skip happlies, execute_cons_skip happlies]
      exact ih ((hx.record_left _).record_right _) _ _
    | true =>
      rw [execute_cons_run happlies, execute_cons_run happlies]
      obtain ⟨hresult, hview⟩ := hm.run (c := c) hW
        ((((hx.record_left (.checked phase i path x.ctx.path)).record_left (.executed phase i)).record_right
          (.checked phase j path x'.ctx.path)).record_right (.executed phase j))
      generalize m.run c outside _ = r at hresult hview ⊢
      generalize m.run c outside _ = r' at hresult hview ⊢
      obtain ⟨result, y⟩ := r
      obtain ⟨result', y'⟩ := r'
      obtain rfl : result = result' := hresult
      cases result with
      | next => exact ih hview _ _
      | response | error => exact ⟨rfl, hview⟩
  | @watch o ms ms' ho _ ih =>
    cases happlies : o.applies path method with
    | false =>
      rw [execute_cons_skip happlies]
      exact ih (hx.record_left _) _ _
    | true =>
      rw [execute_cons_run happlies]
      obtain ⟨hresult, hview⟩ := ho.run (c := c) hW
        ((hx.record_left (.checked phase i path x.ctx.path)).record_left (.executed phase i))
      generalize o.run c outside _ = r at hresult hview ⊢
      obtain ⟨result, y⟩ := r
      obtain rfl : result = .next := hresult
      exact ih hview _ _

theorem Watched.handleError (h : Watched ms ms') (hW : Discreet outside W) (hx : SameView W x x') (i j : Nat) :
    (handleError c outside path ms i x).1 = (handleError c outside path ms' j x').1 ∧
      SameView W (handleError c outside path ms i x).2 (handleError c outside path ms' j x').2 := by
  induction h generalizing i j x x' with
  | nil => exact ⟨rfl, hx⟩
  | @keep m ms ms' hm _ ih =>
    have hchecked := (hx.record_left (.checked .error i path x.ctx.path)).record_right
      (.checked .error j path x'.ctx.path)
    unfold MiddlewareChain.handleError
    dsimp only
    split_ifs
    · exact ih hchecked _ _
    · obtain ⟨hresult, hview⟩ := hm.run (c := c) hW
        ((hchecked.record_left (.executed .error i)).record_right (.executed .error j))
      generalize m.run c outside _ = r at hresult hview ⊢
      generalize m.run c outside _ = r' at hresult hview ⊢
      obtain ⟨result, y⟩ := r
      obtain ⟨result', y'⟩ := r'
      obtain rfl : result = result' := hresult
      cases result with
      | response => exact ⟨rfl, hview⟩
      | next | error => exact ih hview _ _
  | @watch o ms ms' ho _ ih =>
    have hchecked := hx.record_left (.checked .error i path x.ctx.path)
    rw [MiddlewareChain.handleError]
    split_ifs
    · exact ih hchecked _ _
    · obtain ⟨hresult, hview⟩ := ho.run (c := c) hW (hchecked.record_left (.executed .error i))
      generalize o.run c outside _ = r at hresult hview ⊢
      obtain ⟨result, y⟩ := r
      obtain rfl : result = .next := hresult
      exact ih hview _ _

end Chain

end Hypern.Middleware
