import Hypern.Core.Worker

/-! What routing, the handler and later middleware see of the changes that before-middleware
makes to the request data in the context. -/

namespace Hypern.Core

open Http Middleware Routing MiddlewareChain

variable {σ F : Type}

def dispatches (log : List Entry) : List (UInt64 × StrMap) :=
  log.filterMap fun
    | .dispatched hash req => some (hash, req.pathParams)
    | _ => none

def routed (host : Host σ) (state : AppState F) (method : HttpMethod) (path : String) :
    Option (UInt64 × StrMap) :=
  (state.router.findMatchingRoute host.toCrates path method.asStr).map fun found =>
    (found.1.handlerHash host.xxh3_64, found.2)

structure Shows (c : Crates) (req : Request) (ctx : MiddlewareContext) : Prop where
  headers : ∀ name, req.headersMap.lookup name = ctx.headers.lookup name
  queryString : req.queryString = ctx.queryString
  query : ∀ name, req.query c name = (ctx.params c).lookup name
  body : req.body = ctx.body

/-- If all before-middleware lets the request through, every check was about the path of the
context at that time, the handler is the one for the context's final path, and its request
shows the context's final data. -/
def TakesEffect (host : Host σ) (state : AppState F) (incoming : Incoming) (w : σ) : Prop :=
  let req := Request.fromAxum host.toCrates incoming
  let before := beforePhase host state req w
  let log := (handleRequestInner host state incoming w).log
  before.1 = .next →
    (∀ i seen current, .checked .before i seen current ∈ log → seen = current) ∧
    dispatches log = (routed host state req.method before.2.ctx.path).toList ∧
    ∀ hash req', .dispatched hash req' ∈ log → Shows host.toCrates req' before.2.ctx

/-- If all before-middleware lets the request through, it has left no trace: whenever one of
them is asked the path is still the request's, in the end the path leads to the same handler
and parameters, and, if there is a handler, the headers, the query and the body are the
request's. -/
def Untouched (host : Host σ) (state : AppState F) (incoming : Incoming) (w : σ) : Prop :=
  let req := Request.fromAxum host.toCrates incoming
  let before := beforePhase host state req w
  before.1 = .next →
    (∀ i seen current, .checked .before i seen current ∈ before.2.log → current = req.path) ∧
    routed host state req.method before.2.ctx.path = routed host state req.method req.path ∧
    ((routed host state req.method req.path).isSome → Shows host.toCrates req before.2.ctx)

/-! ## The log of a request that is let through -/

section Log

variable {host : Host σ} {state : AppState F} {req : Request} {w : σ}

theorem log_beforePhase (host : Host σ) (state : AppState F) (req : Request) (w : σ) :
    ∀ e ∈ (beforePhase host state req w).2.log, OfLoop .before req.path e := by
  obtain ⟨log, hlog, hall⟩ := @log_execute σ host.toCrates host.outside .before req.path
    (startContext host req w).ctx.method state.middleware.before 0 (startContext host req w)
  have hphase : (beforePhase host state req w).2.log = log := hlog
  rwa [hphase]

def handlerCall (host : Host σ) (state : AppState F) (req : Request) : List Entry :=
  ((findRoute host state req).map fun found =>
    .dispatched (found.1.handlerHash host.xxh3_64) (req.setPathParams found.2)).toList

theorem log_runHandler (host : Host σ) (state : AppState F) (req : Request) (x : Exchange σ) :
    ∃ log, (runHandler host state req x).2.log = x.log ++ (handlerCall host state req ++ log) ∧
      ∀ e ∈ log, ∃ path, OfLoop .after path e := by
  cases hroute : findRoute host state req with
  | none =>
    rw [runHandler_unmatched hroute]
    exact ⟨[], by simp [handlerCall, hroute], by simp⟩
  | some found =>
    obtain ⟨route, params⟩ := found
    rw [runHandler_matched hroute]
    obtain ⟨log, hlog, hall⟩ := @log_execute σ host.toCrates host.outside .after x.ctx.path
      x.ctx.method state.middleware.after 0 (dispatch host (route.handlerHash host.xxh3_64)
        (req.setPathParams params) (x.modify (·.setParams params))).2
    refine ⟨log, ?_, fun e he => ⟨_, hall e he⟩⟩
    rw [handlerCall, hroute]
    exact hlog.trans (List.append_assoc ..)

theorem log_handleRequestInner {incoming : Incoming}
    (hreq : Request.fromAxum host.toCrates incoming = req)
    (hnext : (beforePhase host state req w).1 = .next) :
    ∃ log, (handleRequestInner host state incoming w).log =
        (beforePhase host state req w).2.log ++ (handlerCall host state req ++ log) ∧
      ∀ e ∈ log, ∃ path, OfLoop .after path e := by
  -- both branches give the router and the handler what came over the wire
  unfold handleRequestInner
  rw [hreq]
  dsimp only
  cases hbefore : state.middleware.before with
  | nil =>
    have hphase : (beforePhase host state req w).2.log = [] := by
      simp [beforePhase, executeBefore, hbefore, execute, startContext]
    refine ⟨[], ?_, by simp⟩
    rw [hphase]
    simp only [isEmptyBefore, hbefore, fastPath, handlerCall]
    cases findRoute host state req <;> rfl
  | cons m ms =>
    simp only [isEmptyBefore, hbefore, List.isEmpty_cons, Bool.not_false, if_true, slowPath]
    generalize beforePhase host state req w = before at hnext ⊢
    obtain ⟨_, x⟩ := before
    subst hnext
    exact log_runHandler host state req x

theorem dispatches_eq_nil {log : List Entry} {phase : Phase}
    (h : ∀ e ∈ log, ∃ path, OfLoop phase path e) : dispatches log = [] := by
  refine List.filterMap_eq_nil_iff.mpr fun e he => ?_
  obtain ⟨path, hpath⟩ := h e he
  cases e with
  | dispatched hash req => exact hpath.elim
  | _ => rfl

theorem mem_handlerCall {e : Entry} : e ∈ handlerCall host state req ↔
    ∃ found, findRoute host state req = some found ∧
      e = .dispatched (found.1.handlerHash host.xxh3_64) (req.setPathParams found.2) := by
  rw [handlerCall, Option.mem_toList, Option.map_eq_some_iff]
  exact exists_congr fun found => and_congr_right fun _ => eq_comm

theorem dispatches_handlerCall :
    dispatches (handlerCall host state req) = (routed host state req.method req.path).toList := by
  rw [handlerCall, routed, ← findRoute]
  cases findRoute host state req <;> rfl

end Log

/-! ## The three parts of the property -/

section Parts

variable {host : Host σ} {state : AppState F} {req : Request} {before after : List Entry}
  (hbefore : ∀ e ∈ before, OfLoop .before req.path e)
  (hafter : ∀ e ∈ after, ∃ path, OfLoop .after path e)

include hbefore hafter

theorem checks_iff :
    (∀ i seen current,
        .checked .before i seen current ∈ before ++ (handlerCall host state req ++ after) →
          seen = current) ↔
      ∀ i seen current, .checked .before i seen current ∈ before → current = req.path := by
  have hmem (i : Nat) (seen current : String) : .checked .before i seen current ∈
      before ++ (handlerCall host state req ++ after) ↔ .checked .before i seen current ∈ before := by
    refine ⟨fun h => ?_, fun h => List.mem_append_left _ h⟩
    rcases List.mem_append.mp h with hold | hrest
    · exact hold
    · rcases List.mem_append.mp hrest with hcall | hlater
      · obtain ⟨_, _, heq⟩ := mem_handlerCall.mp hcall
        cases heq
      · obtain ⟨_, hphase, _⟩ := hafter _ hlater
        cases hphase
  refine forall₃_congr fun i seen current => ?_
  rw [hmem]
  refine imp_congr_right fun h => ?_
  rw [(hbefore _ h).2]
  exact eq_comm

theorem dispatches_iff (found : Option (UInt64 × StrMap)) :
    dispatches (before ++ (handlerCall host state req ++ after)) = found.toList ↔
      found = routed host state req.method req.path := by
  have hsplit : dispatches (before ++ (handlerCall host state req ++ after)) =
      (routed host state req.method req.path).toList := by
    have hnone := dispatches_eq_nil fun e he => ⟨_, hbefore e he⟩
    have hlater := dispatches_eq_nil hafter
    simp only [dispatches, List.filterMap_append] at hnone hlater ⊢
    rw [hnone, hlater, List.nil_append, List.append_nil]
    exact dispatches_handlerCall
  rw [hsplit]
  constructor
  · intro hlist
    have hhead := congrArg List.head? hlist
    rwa [Option.head?_toList, Option.head?_toList, eq_comm] at hhead
  · rintro rfl
    rfl

theorem shows_iff (ctx : MiddlewareContext) :
    (∀ hash req', .dispatched hash req' ∈ before ++ (handlerCall host state req ++ after) →
        Shows host.toCrates req' ctx) ↔
      ((routed host state req.method req.path).isSome → Shows host.toCrates req ctx) := by
  have hshows (params : StrMap) :
      Shows host.toCrates (req.setPathParams params) ctx ↔ Shows host.toCrates req ctx :=
    ⟨fun h => ⟨h.1, h.2, h.3, h.4⟩, fun h => ⟨h.1, h.2, h.3, h.4⟩⟩
  rw [routed, ← findRoute, Option.isSome_map]
  constructor
  · intro h hsome
    obtain ⟨found, hfound⟩ := Option.isSome_iff_exists.mp hsome
    have hcall := mem_handlerCall.mpr ⟨found, hfound, rfl⟩
    exact (hshows found.2).mp (h _ _ (List.mem_append_right _ (List.mem_append_left _ hcall)))
  · intro h hash req' hmem
    rcases List.mem_append.mp hmem with hold | hrest
    · exact (hbefore _ hold).elim
    · rcases List.mem_append.mp hrest with hcall | hlater
      · obtain ⟨found, hfound, heq⟩ := mem_handlerCall.mp hcall
        obtain ⟨rfl, rfl⟩ := Entry.dispatched.inj heq
        exact (hshows found.2).mpr (h (Option.isSome_iff_exists.mpr ⟨found, hfound⟩))
      · obtain ⟨_, hphase⟩ := hafter _ hlater
        exact hphase.elim

end Parts

theorem takesEffect_iff_untouched (host : Host σ) (state : AppState F) (incoming : Incoming)
    (w : σ) : TakesEffect host state incoming w ↔ Untouched host state incoming w := by
  unfold TakesEffect Untouched
  generalize hreq : Request.fromAxum host.toCrates incoming = req
  dsimp only
  refine imp_congr_right fun hnext => ?_
  obtain ⟨log, hlog, hafter⟩ := log_handleRequestInner hreq hnext
  have hbefore := log_beforePhase host state req w
  rw [hlog]
  exact and_congr (checks_iff hbefore hafter)
    (and_congr (dispatches_iff hbefore hafter _) (shows_iff hbefore hafter _))

def rewritePath (path : String) : RustMiddleware :=
  ⟨.perform (.setPath path) fun _ => .ret .next, fun _ => true, fun _ => true⟩

theorem rewritten_path_not_routed :
    ¬ ∀ (σ F : Type) (host : Host σ) (state : AppState F) (incoming : Incoming) (w : σ),
      TakesEffect host state incoming w := by
  intro h
  have heffect := h Unit Unit plainHost ⟨oneRoute, [rewritePath "/"], [], []⟩
    ⟨some ("/old", none), "GET", [], none⟩ () rfl
  have hcount := congrArg List.length heffect.2.1
  exact absurd hcount (by decide +kernel)

end Hypern.Core
