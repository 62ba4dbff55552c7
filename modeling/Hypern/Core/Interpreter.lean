import Hypern.Routing.Registration
import Mathlib.Data.List.Induction

/-! From a matched route to the Python function that runs: the handlers that `Server::start`
collects, the registry a worker fills with them, and what `http_execute` finds in it. -/

namespace Hypern.Core

open Routing Lib

variable {T F : Type}

/-- `HANDLER_REGISTRY`: the handler of a hash and whether it is a coroutine function. -/
abbrev HandlerRegistry (F : Type) := UInt64 → Option (F × Bool)

namespace HandlerRegistry

/-- `register_handler`; an entry of the same hash is overwritten. -/
def registerHandler (iscoroutinefunction : F → Bool) (registry : HandlerRegistry F)
    (entry : UInt64 × F) : HandlerRegistry F :=
  Function.update registry entry.1 (some (entry.2, iscoroutinefunction entry.2))

def getHandlerInfo (registry : HandlerRegistry F) (routeHash : UInt64) : Option Bool :=
  (registry routeHash).map (·.2)

def getHandler (registry : HandlerRegistry F) (routeHash : UInt64) : Option F :=
  (registry routeHash).map (·.1)

end HandlerRegistry

/-- How `http_execute` answers: without a handler, or by calling one. -/
inductive Execution (F : Type)
  | answered (status : Nat) (body : String)
  | called (handler : F) (isAsync : Bool)
  deriving DecidableEq

def httpExecute (registry : HandlerRegistry F) (routeHash : UInt64) : Execution F :=
  match registry.getHandlerInfo routeHash with
  | none => .answered 404 "Not Found"
  | some isAsync =>
    match registry.getHandler routeHash with
    | some handler => .called handler isAsync
    | none => .answered 404 "Not Found"

/-- The handlers that `Server::start` collects before it forks. -/
def collectHandlers (xxh3_64 : List UInt8 → UInt64) (s : RouteStore T F) : List (UInt64 × F) :=
  s.routes.map fun r => (r.handlerHash xxh3_64, r.function)

/-- The registry of a worker once `run_worker` has registered the handlers. -/
def workerRegistry (iscoroutinefunction : F → Bool) (registry : HandlerRegistry F)
    (handlers : List (UInt64 × F)) : HandlerRegistry F :=
  handlers.foldl (HandlerRegistry.registerHandler iscoroutinefunction) registry

section

variable {iscoroutinefunction : F → Bool} {xxh3_64 : List UInt8 → UInt64}

/-- The last writer wins, so handlers that share a hash must be one function. -/
theorem workerRegistry_eq {handlers : List (UInt64 × F)} {hash : UInt64} {f : F}
    (hmem : (hash, f) ∈ handlers) (hsame : ∀ g, (hash, g) ∈ handlers → g = f)
    (registry : HandlerRegistry F) :
    workerRegistry iscoroutinefunction registry handlers hash = some (f, iscoroutinefunction f) := by
  induction handlers using List.reverseRecOn with
  | nil => cases hmem
  | append_singleton handlers entry ih =>
    rw [workerRegistry, List.foldl_append, List.foldl_cons, List.foldl_nil,
      HandlerRegistry.registerHandler]
    by_cases hhash : entry.1 = hash
    · obtain rfl : entry.2 = f := hsame entry.2 (List.mem_append.mpr (.inr (by simp [← hhash])))
      rw [hhash, Function.update_self]
    · rw [Function.update_of_ne (Ne.symm hhash)]
      refine ih ?_ fun g hg => hsame g (List.mem_append.mpr (.inl hg))
      rcases List.mem_append.mp hmem with h | h
      · exact h
      · exact absurd (congrArg Prod.fst (List.mem_singleton.mp h)).symm hhash

theorem httpExecute_eq {registry : HandlerRegistry F} {hash : UInt64} {f : F} {isAsync : Bool}
    (h : registry hash = some (f, isAsync)) : httpExecute registry hash = .called f isAsync := by
  simp [httpExecute, HandlerRegistry.getHandlerInfo, HandlerRegistry.getHandler, h]

end

def Adds : RouterCall F → Prop
  | .removeRoute _ _ => False
  | _ => True

theorem matched_route_runs_own_handler (env : RouterCrates T F) (xxh3_64 : List UInt8 → UInt64)
    (iscoroutinefunction : F → Bool) (registry : HandlerRegistry F) (base : String)
    (calls : List (RouterCall F)) (hadds : ∀ call ∈ calls, Adds call) (s : RouteStore T F)
    (hexec : exec (RouterCall.apply env) (.new env base) calls = some s)
    (hhash : ∀ r ∈ s.routes, ∀ r' ∈ s.routes,
      r.handlerHash xxh3_64 = r'.handlerHash xxh3_64 → r.path = r'.path ∧ r.method = r'.method)
    (path method : String) (r : Route F) (params : Http.StrMap)
    (hfind : s.findMatchingRoute env path method = some (r, params)) :
    let started := workerRegistry iscoroutinefunction registry (collectHandlers xxh3_64 s)
    started.getHandler (r.handlerHash xxh3_64) = some r.function ∧
      httpExecute started (r.handlerHash xxh3_64) =
        .called r.function (iscoroutinefunction r.function) := by
  have hnothing : Along (RouterCall.apply env) (RouterCall.RemovesNothing env) (.new env base) calls := by
    refine Along.of_forall (fun call hcall s => ?_) _
    have hadd := hadds call hcall
    cases call with
    | removeRoute path method => exact hadd.elim
    | addRoute r => trivial
    | extendRoute rs => trivial
  obtain ⟨hs, hlisted⟩ := RouteStore.listed_of_removesNothing hnothing hexec
  have hr : r ∈ s.routes := hlisted.found hfind
  -- a listed route with the same hash has the same path and method, so it is the same route
  have hsame : ∀ r' ∈ s.routes, r'.handlerHash xxh3_64 = r.handlerHash xxh3_64 → r' = r := by
    intro r' hr' heq
    obtain ⟨hpath, hmethod⟩ := hhash r' hr' r hr heq
    by_contra hne
    have : Std.Symm fun a b : Route F =>
        ¬ (a.path = b.path ∧ env.toUppercase a.method = env.toUppercase b.method) :=
      ⟨fun a b hab hba => hab ⟨hba.1.symm, hba.2.symm⟩⟩
    exact hs.distinct.forall hr' hr hne ⟨hpath, congrArg _ hmethod⟩
  have hentry : workerRegistry iscoroutinefunction registry (collectHandlers xxh3_64 s)
      (r.handlerHash xxh3_64) = some (r.function, iscoroutinefunction r.function) := by
    have hmem : (r.handlerHash xxh3_64, r.function) ∈ collectHandlers xxh3_64 s :=
      List.mem_map.mpr ⟨r, hr, rfl⟩
    refine workerRegistry_eq hmem (fun g hg => ?_) registry
    obtain ⟨r', hr', heq⟩ := List.mem_map.mp hg
    rw [Prod.mk.injEq] at heq
    rw [← heq.2, hsame r' hr' heq.1]
  refine ⟨?_, httpExecute_eq hentry⟩
  rw [HandlerRegistry.getHandler, hentry, Option.map_some]

/-- One of the routes is refused: in upper case its method is that of the first one. -/
def userCalls : List (RouterCall Nat) :=
  [.addRoute ⟨"/users", 0, "GET"⟩, .extendRoute [⟨"/users", 1, "get"⟩, ⟨"/users", 2, "post"⟩]]

def userRoutes : RouteStore (List (String × Route Nat)) Nat :=
  (((RouteStore.new (RouteStore.asciiCrates Nat) "").addRoute (RouteStore.asciiCrates Nat)
    ⟨"/users", 0, "GET"⟩).2).extendRoute (RouteStore.asciiCrates Nat)
      [⟨"/users", 1, "get"⟩, ⟨"/users", 2, "post"⟩]

def byteHash (bytes : List UInt8) : UInt64 := bytes.foldl (fun h b => h * 31 + b.toUInt64) 7

theorem users_run_own_handler :
    let started := workerRegistry (fun _ => false) (fun _ => none) (collectHandlers byteHash userRoutes)
    started.getHandler (Route.handlerHash byteHash (⟨"/users", 0, "GET"⟩ : Route Nat)) = some 0 ∧
      httpExecute started (Route.handlerHash byteHash (⟨"/users", 0, "GET"⟩ : Route Nat)) =
        .called 0 false :=
  matched_route_runs_own_handler (RouteStore.asciiCrates Nat) byteHash (fun _ => false)
    (fun _ => none) "" userCalls (by simp [userCalls, Adds]) userRoutes rfl (by decide)
    "/users" "GET" ⟨"/users", 0, "GET"⟩ ∅ rfl

end Hypern.Core
