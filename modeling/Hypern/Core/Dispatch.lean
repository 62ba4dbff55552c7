import Hypern.Core.RequestModification
import Hypern.Routing.Registration

/-! When a handler runs: for which requests, and whether for a route of the request's method. -/

namespace Hypern.Core

open Http Lib Middleware Routing MiddlewareChain

variable {σ F : Type}

/-! ## The log of a request that is answered before -/

section Log

variable {host : Host σ} {state : AppState F} {req : Request} {w : σ}

theorem log_handleError {c : Crates} {outside : String → σ → String × σ} {path : String}
    (ms : List RustMiddleware) (i : Nat) (x : Exchange σ) :
    ∃ log, (handleError c outside path ms i x).2.log = x.log ++ log ∧
      ∀ e ∈ log, OfLoop .error path e := by
  induction ms generalizing i x with
  | nil => exact ⟨[], (List.append_nil _).symm, nofun⟩
  | cons m ms ih =>
    have hchecked : OfLoop .error path (.checked .error i path x.ctx.path) := ⟨rfl, rfl⟩
    unfold handleError
    dsimp only
    split_ifs
    · obtain ⟨log, hlog, hall⟩ := ih (i + 1) (x.record (.checked .error i path x.ctx.path))
      refine ⟨.checked .error i path x.ctx.path :: log, ?_, List.forall_mem_cons.mpr ⟨hchecked, hall⟩⟩
      rw [hlog, Exchange.record, List.append_assoc, List.singleton_append]
    · generalize hx₁ : (x.record (.checked .error i path x.ctx.path)).record (.executed .error i) = x₁
      have hrun : (m.run c outside x₁).2.log =
          x.log ++ [.checked .error i path x.ctx.path, .executed .error i] := by
        rw [run_log, ← hx₁]
        simp [Exchange.record]
      have hown : ∀ e ∈ [Entry.checked .error i path x.ctx.path, .executed .error i],
          OfLoop .error path e :=
        List.forall_mem_cons.mpr ⟨hchecked, List.forall_mem_singleton.mpr rfl⟩
      generalize m.run c outside x₁ = r at hrun ⊢
      obtain ⟨_ | _ | _, x'⟩ := r
      · obtain ⟨log, hlog, hall⟩ := ih (i + 1) x'
        exact ⟨_, by rw [hlog, hrun, List.append_assoc], List.forall_mem_append.mpr ⟨hown, hall⟩⟩
      · exact ⟨_, hrun, hown⟩
      · obtain ⟨log, hlog, hall⟩ := ih (i + 1) x'
        exact ⟨_, by rw [hlog, hrun, List.append_assoc], List.forall_mem_append.mpr ⟨hown, hall⟩⟩

theorem log_executeError (c : Crates) (outside : String → σ → String × σ) (chain : MiddlewareChain)
    (e : MiddlewareError) (x : Exchange σ) :
    ∃ log, (chain.executeError c outside e x).2.log = x.log ++ log ∧
      ∀ e ∈ log, OfLoop .error x.ctx.path e := by
  unfold executeError
  dsimp only
  obtain ⟨log, hlog, hall⟩ := @log_handleError σ c outside x.ctx.path chain.errorHandlers 0
    (x.modify fun ctx => ((ctx.setState "error_code" (.string e.code)).setState "error_message"
      (.string e.message)).setState "error_status" (.int e.status))
  refine ⟨log, ?_, hall⟩
  split
  next heq => exact (congrArg (fun r => r.2.log) heq).symm.trans hlog
  next heq => exact (congrArg (fun r => r.2.log) heq).symm.trans hlog

theorem not_dispatched_of_ofLoop {log : List Entry}
    (h : ∀ e ∈ log, ∃ phase path, OfLoop phase path e) {hash : UInt64} {req : Request} :
    .dispatched hash req ∉ log := by
  intro hmem
  obtain ⟨phase, path, hloop⟩ := h _ hmem
  exact hloop

/-- A request that before-middleware answers, or fails on, reaches no handler. -/
theorem log_answered {incoming : Incoming} (hreq : Request.fromAxum host.toCrates incoming = req)
    (hnext : (beforePhase host state req w).1 ≠ .next) :
    ∀ e ∈ (handleRequestInner host state incoming w).log, ∃ phase path, OfLoop phase path e := by
  have hlog := log_beforePhase host state req w
  have hbefore : state.middleware.isEmptyBefore = false := by
    refine Bool.eq_false_iff.mpr fun hempty => hnext ?_
    rw [beforePhase, executeBefore, List.isEmpty_iff.mp hempty]
    rfl
  unfold handleRequestInner
  rw [hreq, hbefore]
  simp only [Bool.not_false, if_true, slowPath]
  generalize beforePhase host state req w = before at hnext hlog ⊢
  obtain ⟨_ | r | e, x⟩ := before
  · exact absurd rfl hnext
  · exact fun e he => ⟨_, _, hlog e he⟩
  · obtain ⟨log, herror, hall⟩ := log_executeError host.toCrates host.outside state.middleware e x
    have hentries : ∀ e' ∈ (state.middleware.executeError host.toCrates host.outside e x).2.log,
        ∃ phase path, OfLoop phase path e' := by
      rw [herror]
      exact List.forall_mem_append.mpr ⟨fun e he => ⟨_, _, hlog e he⟩, fun e he => ⟨_, _, hall e he⟩⟩
    dsimp only
    generalize state.middleware.executeError host.toCrates host.outside e x = r at hentries ⊢
    obtain ⟨_ | _, x'⟩ := r
    · exact hentries
    · exact hentries

/-- A handler runs if before-middleware lets the request through and a route is found for it. -/
theorem dispatched_mem_iff {incoming : Incoming}
    (hreq : Request.fromAxum host.toCrates incoming = req) {hash : UInt64} {req' : Request} :
    .dispatched hash req' ∈ (handleRequestInner host state incoming w).log ↔
      (beforePhase host state req w).1 = .next ∧ ∃ found, findRoute host state req = some found ∧
        hash = found.1.handlerHash host.xxh3_64 ∧ req' = req.setPathParams found.2 := by
  by_cases hnext : (beforePhase host state req w).1 = .next
  · obtain ⟨log, hlog, hall⟩ := log_handleRequestInner hreq hnext
    have hbefore := log_beforePhase host state req w
    have hnone : .dispatched hash req' ∉ (beforePhase host state req w).2.log :=
      not_dispatched_of_ofLoop fun e he => ⟨_, _, hbefore e he⟩
    have hnone' : .dispatched hash req' ∉ log := not_dispatched_of_ofLoop fun e he => ⟨_, hall e he⟩
    rw [hlog, List.mem_append, List.mem_append, or_iff_right hnone, or_iff_left hnone',
      mem_handlerCall, and_iff_right hnext]
    simp only [Entry.dispatched.injEq]
  · refine iff_of_false (not_dispatched_of_ofLoop (log_answered hreq hnext)) fun h => hnext h.1

theorem not_dispatched_of_no_route {incoming : Incoming}
    (hreq : Request.fromAxum host.toCrates incoming = req) (hnone : findRoute host state req = none)
    (hash : UInt64) (req' : Request) :
    .dispatched hash req' ∉ (handleRequestInner host state incoming w).log := by
  intro h
  obtain ⟨-, found, hfound, -⟩ := (dispatched_mem_iff hreq).mp h
  cases hnone.symm.trans hfound

end Log

/-! ## The method of a request -/

/-- Every handler that runs is one of a route that was registered for the method of the request,
and the middleware sees that method. -/
def RespectsMethod (host : Host σ) {T : Type} (env : RouterCrates T F) (s : RouteStore T F)
    (chain : MiddlewareChain) (incoming : Incoming) (w : σ) : Prop :=
  (∀ hash req, .dispatched hash req ∈
      (handleRequestInner host ⟨s.view env, chain⟩ incoming w).log →
    ∃ m, ∃ r ∈ s.stored env m, env.toUppercase r.method = incoming.method ∧
      hash = r.handlerHash host.xxh3_64) ∧
  (chain.before ≠ [] →
    (startContext host (Request.fromAxum host.toCrates incoming) w).ctx.method.asStr =
      incoming.method)

theorem exact_eq_some {s : String} {m : HttpMethod} :
    HttpMethod.exact s = some m ↔ s = m.asStr := by
  constructor
  · intro h
    unfold HttpMethod.exact at h
    split at h <;> cases h <;> rfl
  · rintro rfl
    cases m <;> rfl

/-- A method of the nine names keeps its name, any other becomes `GET`. -/
theorem fromAxum_cases (method : String) :
    (HttpMethod.fromAxum method).asStr = method ∧ (∃ m : HttpMethod, method = m.asStr) ∨
      HttpMethod.fromAxum method = .get ∧ ¬ ∃ m : HttpMethod, method = m.asStr := by
  unfold HttpMethod.fromAxum
  cases hexact : HttpMethod.exact method with
  | some m =>
    obtain rfl := exact_eq_some.mp hexact
    exact .inl ⟨rfl, m, rfl⟩
  | none =>
    refine .inr ⟨rfl, ?_⟩
    rintro ⟨m, rfl⟩
    exact nomatch hexact.symm.trans (exact_eq_some.mpr rfl)

section Method

variable {host : Host σ} {T : Type} {env : RouterCrates T F} {s : RouteStore T F}
  {chain : MiddlewareChain} {incoming : Incoming} {w : σ}

/-- The route that is found is stored under the upper-case form of the method it was looked up
with. -/
theorem stored_of_dispatched (henv : env.toCrates = host.toCrates) (hs : s.Kept env)
    {hash : UInt64} {req : Request}
    (h : .dispatched hash req ∈ (handleRequestInner host ⟨s.view env, chain⟩ incoming w).log) :
    ∃ m, ∃ r ∈ s.stored env m, env.toUppercase r.method = m.asStr ∧
      env.toUppercase (HttpMethod.fromAxum incoming.method).asStr = m.asStr ∧
      hash = r.handlerHash host.xxh3_64 := by
  obtain ⟨-, found, hfound, rfl, -⟩ := (dispatched_mem_iff rfl).mp h
  have hlookup : s.findMatchingRoute env (Request.fromAxum host.toCrates incoming).path
      (HttpMethod.fromAxum incoming.method).asStr = some (found.1, found.2) := by
    unfold RouteStore.findMatchingRoute
    rw [henv]
    exact hfound
  obtain ⟨m, hm, p, hentry, -⟩ := RouteStore.stored_of_found hlookup
  exact ⟨m, found.1, List.mem_map.mpr ⟨_, hentry, rfl⟩, (hs.entries m _ hentry).2.1, hm, rfl⟩

theorem findRoute_get {req : Request} (h : req.method = .get) :
    findRoute host ⟨s.view env, chain⟩ req = env.matchit.lookup (s.trees .get) req.path := by
  rw [findRoute, h]
  rfl

theorem treeMethod_standard (m : TreeMethod) : ∃ m' : HttpMethod, m.asStr = m'.asStr := by
  cases m with
  | get => exact ⟨.get, rfl⟩
  | post => exact ⟨.post, rfl⟩
  | put => exact ⟨.put, rfl⟩
  | delete => exact ⟨.delete, rfl⟩
  | patch => exact ⟨.patch, rfl⟩
  | head => exact ⟨.head, rfl⟩
  | options => exact ⟨.options, rfl⟩

theorem beforePhase_nil {state : AppState F} (h : state.middleware.before = []) (req : Request) :
    (beforePhase host state req w).1 = .next := by
  rw [beforePhase, executeBefore, h]
  rfl

/-- Extension methods are taken for `GET`, which shows if there is before-middleware or a `GET`
route of the path. -/
theorem respectsMethod_iff (henv : env.toCrates = host.toCrates)
    (hupper : ∀ m : HttpMethod, env.toUppercase m.asStr = m.asStr) {base : String}
    {calls : List (RouterCall F)} (hs : exec (RouterCall.apply env) (.new env base) calls = some s)
    (chain : MiddlewareChain) (incoming : Incoming) (w : σ) :
    RespectsMethod host env s chain incoming w ↔
      (∃ m : HttpMethod, incoming.method = m.asStr) ∨
        chain.before = [] ∧
          env.matchit.lookup (s.trees .get)
            (decodePath host.percentDecodeStr (incoming.pathAndQuery.map (·.1))) = none := by
  have hkept : s.Kept env :=
    Reaches.invariant (fun _ _ _ hs hcall => hs.apply hcall) ⟨calls, hs⟩ (RouteStore.kept_new base)
  have hcontext : (startContext host (Request.fromAxum host.toCrates incoming) w).ctx.method =
      HttpMethod.fromAxum incoming.method := startContext_method _ w
  unfold RespectsMethod
  rw [hcontext]
  rcases fromAxum_cases incoming.method with ⟨hsame, hstandard⟩ | ⟨hget, hextension⟩
  · refine iff_of_true ⟨fun hash req h => ?_, fun _ => hsame⟩ (.inl hstandard)
    obtain ⟨m, r, hr, hmethod, hm, hhash⟩ := stored_of_dispatched henv hkept h
    obtain ⟨name, hname⟩ := hstandard
    refine ⟨m, r, hr, ?_, hhash⟩
    rw [hmethod, ← hm, hsame, hname, hupper]
  · rw [or_iff_right hextension]
    have hroute := @findRoute_get σ F host T env s chain
      (Request.fromAxum host.toCrates incoming) hget
    constructor
    · rintro ⟨hdispatch, hmethod⟩
      have hnone : chain.before = [] := by
        by_contra hbefore
        exact hextension ⟨.get, (hget ▸ hmethod hbefore).symm⟩
      refine ⟨hnone, Option.eq_none_iff_forall_ne_some.mpr fun found hfound => ?_⟩
      obtain ⟨m, r, hr, hmethod, -⟩ := hdispatch _ _ ((dispatched_mem_iff rfl).mpr
        ⟨beforePhase_nil hnone _, found, hroute.trans hfound, rfl, rfl⟩)
      obtain ⟨e, he, rfl⟩ := List.mem_map.mp hr
      obtain ⟨name, hname⟩ := treeMethod_standard m
      exact hextension ⟨name, by rw [← hmethod, (hkept.entries m e he).2.1, hname]⟩
    · rintro ⟨hbefore, hnone⟩
      refine ⟨fun hash req h => absurd h ?_, fun hne => absurd hbefore hne⟩
      exact not_dispatched_of_no_route rfl (hroute.trans hnone) hash req

end Method

open RouteStore

def asciiHost : Host Unit where
  toCrates := (asciiCrates Unit).toCrates
  xxh3_64 := fun bytes => UInt64.ofNat bytes.length
  outside := fun _ w => ("", w)
  httpExecute := fun _ _ w => (⟨200, [], []⟩, w)
  requestId := fun _ _ _ => "0000000000000000"

/-- A router with one `GET` route. -/
def usersRouter : RouteStore (List (String × Route Unit)) Unit :=
  ((new (asciiCrates Unit) "").addRoute (asciiCrates Unit) getUsers).2

theorem usersRouter_reached :
    exec (RouterCall.apply (asciiCrates Unit)) (new (asciiCrates Unit) "") [.addRoute getUsers] =
      some usersRouter := rfl

theorem delete_respected :
    RespectsMethod asciiHost (asciiCrates Unit) usersRouter ⟨[], [], []⟩
      ⟨some ("/users", none), "DELETE", [], none⟩ () :=
  (respectsMethod_iff rfl (fun m => by cases m <;> decide) usersRouter_reached ⟨[], [], []⟩
    ⟨some ("/users", none), "DELETE", [], none⟩ ()).mpr (.inl ⟨.delete, rfl⟩)

/-- A handler of a `GET` route runs for another method. -/
theorem purge_dispatched :
    ¬ ∀ (calls : List (RouterCall Unit)) (s : RouteStore (List (String × Route Unit)) Unit)
      (chain : MiddlewareChain) (incoming : Incoming) (w : Unit),
      exec (RouterCall.apply (asciiCrates Unit)) (new (asciiCrates Unit) "") calls = some s →
        RespectsMethod asciiHost (asciiCrates Unit) s chain incoming w := by
  intro h
  have hrespects := (h [.addRoute getUsers] usersRouter ⟨[], [], []⟩
    ⟨some ("/users", none), "PURGE", [], none⟩ () usersRouter_reached).1
  have hdispatched : .dispatched (getUsers.handlerHash asciiHost.xxh3_64)
      ((Request.fromAxum asciiHost.toCrates ⟨some ("/users", none), "PURGE", [], none⟩).setPathParams
        ∅) ∈ (handleRequestInner asciiHost ⟨usersRouter.view (asciiCrates Unit), ⟨[], [], []⟩⟩
          ⟨some ("/users", none), "PURGE", [], none⟩ ()).log :=
    (dispatched_mem_iff rfl).mpr ⟨rfl, (getUsers, ∅), rfl, rfl, rfl⟩
  obtain ⟨m, r, hr, hmethod, -⟩ := hrespects _ _ hdispatched
  cases m with
  | get =>
    obtain rfl := List.mem_singleton.mp hr
    exact absurd hmethod (by decide)
  | _ => cases hr

end Hypern.Core
