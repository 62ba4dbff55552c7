import Hypern.App.WrapHandler
import Mathlib.Algebra.Order.BigOperators.Group.List
import Mathlib.Algebra.Order.Group.Nat
import Mathlib.Tactic.Push

/-! `app.use`: where a registration is kept, what `start` makes of it, and which
registrations take part in a request. Giving `use` a `MiddlewareStack` is giving it
the members of the stack one after another. -/

namespace Hypern.Application

open Lib Python

/-- An instance of a class of `hypern._hypern`: no `__call__`, and no attributes to set. -/
def rustObject (id : Nat) (kind : RustKind) : PyObject :=
  { id, callable := false, isCoroutineFunction := false, asyncBody := false,
    coroutine_async := not_coroutine, accepts := fun _ => false, argcount := none,
    beforeRequest := false, afterRequest := false, isMiddleware := false, rust := some kind,
    body := fun _ => .ret () }

def isHook (f : PyObject) : Bool := f.beforeRequest || f.afterRequest

inductive Usable : PyObject → Prop
  | middleware {f : PyObject} (callable : f.callable = true) (accepts : f.accepts 4 = true)
      (unmarked : isHook f = false) (python : f.rust = none) : Usable f
  | hook {f : PyObject} (marked : isHook f = true) (python : f.rust = none) : Usable f
  | rust (id : Nat) (kind : RustKind) : Usable (rustObject id kind)

/-- `app.use(target)` or `app.use(path, target)` -/
structure Registration where
  path : Option String
  target : PyObject
  usable : Usable target

namespace Registration

/-- The empty path is falsy, so it registers as no path does. -/
def entry (r : Registration) : MwEntry :=
  match r.path with
  | none => .plain r.target
  | some p => if p = "" then .plain r.target else .scoped p r.target

end Registration

namespace App

def registerMiddleware (app : App) (r : Registration) : App :=
  { app with
    beforeHandlers := app.beforeHandlers ++ if r.target.beforeRequest then [r.target] else []
    afterHandlers := app.afterHandlers ++ if r.target.afterRequest then [r.target] else []
    middleware := app.middleware ++ [r.entry] }

def use (app : App) (r : Registration) : Except PyExc App := .ok (app.registerMiddleware r)

end App

structure Server where
  rustMiddleware : List RustKind

namespace Server

def extracted : List RustKind :=
  [.requestId, .cors, .securityHeaders, .compression, .rateLimit, .timeout, .log, .basicAuth]

def useMiddleware (server : Server) (mw : PyObject) : Except PyExc Server :=
  match mw.rust.filter (extracted.contains ·) with
  | some kind => .ok { server with rustMiddleware := server.rustMiddleware ++ [kind] }
  | none => .error (typeError
      "Middleware must be a Rust middleware type (CORS, SecurityHeaders, RequestId, etc.)")

/-- The loop of `start` over `self._middleware`. -/
def registerAll (server : Server) : List MwEntry → Except PyExc Server
  | [] => .ok server
  | .scoped _ _ :: entries => server.registerAll entries
  | .plain mw :: entries =>
    if mw.callable then server.registerAll entries
    else match server.useMiddleware mw with
      | .ok server' => server'.registerAll entries
      -- `except Exception: pass`
      | .error e => if e.isException then server.registerAll entries else .error e

end Server

def launch (app : App) (regs : List Registration) : Except PyExc (App × Server) := do
  let app ← regs.foldlM App.use app
  let server ← Server.registerAll ⟨[]⟩ app.middleware
  return (app, server)

/-! ## Taking part -/

inductive Participant
  | rust (kind : RustKind)
  | python (f : PyObject) (args : List Arg)

/-- A call that runs the body of `f`; any other call only raises or leaves a coroutine behind. -/
def Participant.call (args : List Arg) (f : PyObject) : Option Participant :=
  if f.enters args.length then some (.python f args) else none

/-- Who is in line for a request to a route. The server's chain is there for every route,
and everything kept in Python only for a route whose handler went through `_wrap_handler`:
`app.route`, `app.add_route` and the constructor's `routes` register a handler as it is. -/
def participants (app : App) (server : Server) (wrapped : Bool) (path : String) :
    List Participant :=
  server.rustMiddleware.map .rust ++
    if wrapped then
      app.beforeHandlers.filterMap (Participant.call [.req, .res, .ctx]) ++
      (app.applicableMiddleware path).filterMap (Participant.call [.req, .res, .ctx, .next]) ++
      app.afterHandlers.filterMap (Participant.call [.req, .res, .ctx])
    else []

def served (app : App) (regs : List Registration) (wrapped : Bool) (path : String) :
    Except PyExc (List Participant) := do
  let (app, server) ← launch app regs
  return participants app server wrapped path

/-- Without the registration somebody would be missing. -/
def TakesPart (app : App) (regs : List Registration) (i : Nat) (wrapped : Bool) (path : String) :
    Prop :=
  served app (regs.eraseIdx i) wrapped path ≠ served app regs wrapped path

/-- `path` is `p` or goes on below it: the rest starts, or `p` ends, with a slash. -/
def covers (p path : String) : Bool :=
  startsWith path p &&
    let rest := path.toList.drop p.toList.length
    rest.isEmpty || rest.head? == some '/' || p.toList.getLast? == some '/'

namespace Registration

def Covers (r : Registration) (path : String) : Prop := ∀ p, r.path = some p → covers p path = true

end Registration

/-- Either the launch fails or each registration takes part in the request if it covers the
path, keeps out of it if it does not, and takes part in some request that it covers. -/
def Enforced (app : App) (regs : List Registration) (wrapped : Bool) (path : String) : Prop :=
  (∃ e, launch app regs = .error e) ∨
    ∀ i r, regs[i]? = some r →
      (r.Covers path → TakesPart app regs i wrapped path) ∧
      (¬ r.Covers path → ¬ TakesPart app regs i wrapped path) ∧
      ∃ wrapped' path', r.Covers path' ∧ TakesPart app regs i wrapped' path'

/-! ## What the code does with a registration -/

namespace Registration

def scope (r : Registration) : Option String := r.path.filter (· ≠ "")

/-- There are requests in which it takes part: a Rust object of a class the server extracts,
registered without a path, or a Python object that the wrapper recognizes and whose body
its call runs. -/
def Honourable (r : Registration) : Prop :=
  match r.target.rust with
  | some kind => r.scope = none ∧ kind ∈ Server.extracted
  | none =>
    if isHook r.target then r.target.enters 3 = true
    else r.target.enters 4 = true ∧
      (r.scope = none → r.target.isMiddleware = true ∨ ∃ n, r.target.argcount = some n ∧ 4 ≤ n)

/-- The request is one in which the code gets the scope right. Rust objects and hooks are run
for every path, other Python objects for every path that starts with theirs. -/
def ScopeKept (r : Registration) (wrapped : Bool) (path : String) : Prop :=
  if r.target.rust.isSome then r.Covers path
  else if wrapped then
    if isHook r.target then r.Covers path
    else (∀ p, r.scope = some p → startsWith path p = true) → r.Covers path
  else ¬ r.Covers path

end Registration

/-! ## The places a registration has in the line -/

def MwEntry.rustKind : MwEntry → Option RustKind
  | .scoped _ _ => none
  | .plain mw => if mw.callable then none else mw.rust.filter (Server.extracted.contains ·)

namespace Registration

def rustPart (r : Registration) : Option Participant := r.entry.rustKind.map .rust

def beforePart (r : Registration) : Option Participant :=
  if r.target.beforeRequest then Participant.call [.req, .res, .ctx] r.target else none

def middlewarePart (path : String) (r : Registration) : Option Participant :=
  (r.entry.applicable path).bind (Participant.call [.req, .res, .ctx, .next])

def afterPart (r : Registration) : Option Participant :=
  if r.target.afterRequest then Participant.call [.req, .res, .ctx] r.target else none

/-- For each place, who is there already and what a registration adds. -/
def places (app : App) (wrapped : Bool) (path : String) :
    List (List Participant × (Registration → Option Participant)) :=
  ((app.middleware.filterMap MwEntry.rustKind).map .rust, rustPart) ::
    if wrapped then
      [(app.beforeHandlers.filterMap (Participant.call [.req, .res, .ctx]), beforePart),
       ((app.applicableMiddleware path).filterMap (Participant.call [.req, .res, .ctx, .next]),
        middlewarePart path),
       (app.afterHandlers.filterMap (Participant.call [.req, .res, .ctx]), afterPart)]
    else []

end Registration

theorem registerAll_cons (server : Server) (entry : MwEntry) (entries : List MwEntry) :
    server.registerAll (entry :: entries) =
      Server.registerAll ⟨server.rustMiddleware ++ entry.rustKind.toList⟩ entries := by
  obtain mw | ⟨p, mw⟩ := entry
  · simp only [Server.registerAll, Server.useMiddleware, MwEntry.rustKind]
    cases mw.callable with
    | true => simp
    | false =>
      cases mw.rust.filter (Server.extracted.contains ·) with
      -- the refusal is an `Exception`, so the loop goes on
      | none => simp [typeError, builtinError, PyExc.isException, PyExc.isInstance]
      | some kind => simp
  · simp [Server.registerAll, MwEntry.rustKind]

theorem registerAll_eq (server : Server) (entries : List MwEntry) :
    server.registerAll entries =
      .ok ⟨server.rustMiddleware ++ entries.filterMap MwEntry.rustKind⟩ := by
  induction entries generalizing server with
  | nil => simp [Server.registerAll]
  | cons entry entries ih =>
    rw [registerAll_cons, ih, List.filterMap_cons, List.append_assoc]
    cases entry.rustKind <;> rfl

theorem registered_eq (app : App) (regs : List Registration) :
    regs.foldlM App.use app = .ok { app with
      beforeHandlers := app.beforeHandlers ++ (regs.filter (·.target.beforeRequest)).map (·.target)
      afterHandlers := app.afterHandlers ++ (regs.filter (·.target.afterRequest)).map (·.target)
      middleware := app.middleware ++ regs.map (·.entry) } := by
  induction regs generalizing app with
  | nil => simp [pure, Except.pure]
  | cons r regs ih =>
    have hstep : (r :: regs).foldlM App.use app = regs.foldlM App.use (app.registerMiddleware r) := rfl
    rw [hstep, ih]
    simp only [App.registerMiddleware, List.filter_cons, List.map_cons, List.append_assoc]
    cases r.target.beforeRequest <;> cases r.target.afterRequest <;> simp

/-- Neither `use` nor `start` ever raises. -/
theorem launch_ok (app : App) (regs : List Registration) : ∃ s, launch app regs = .ok s := by
  simp only [launch, registered_eq, registerAll_eq]
  exact ⟨_, rfl⟩

theorem filterMap_map_filter {p : Registration → Bool} {f : PyObject → Option Participant}
    (regs : List Registration) :
    ((regs.filter p).map (·.target)).filterMap f =
      regs.filterMap fun r => if p r then f r.target else none := by
  induction regs with
  | nil => rfl
  | cons r regs ih =>
    cases hp : p r <;> simp [List.filterMap_cons, hp, ih]

theorem served_eq (app : App) (regs : List Registration) (wrapped : Bool) (path : String) :
    served app regs wrapped path =
      .ok ((Registration.places app wrapped path).flatMap fun s => s.1 ++ regs.filterMap s.2) := by
  have hrust : ((regs.map (·.entry)).filterMap MwEntry.rustKind).map Participant.rust =
      regs.filterMap Registration.rustPart := by
    rw [List.filterMap_map, List.map_filterMap]
    rfl
  have hmiddleware : ((regs.map (·.entry)).filterMap (MwEntry.applicable path)).filterMap
      (Participant.call [.req, .res, .ctx, .next]) =
        regs.filterMap (Registration.middlewarePart path) := by
    rw [List.filterMap_map, List.filterMap_filterMap]
    rfl
  have hbefore : ((regs.filter (·.target.beforeRequest)).map (·.target)).filterMap
      (Participant.call [.req, .res, .ctx]) = regs.filterMap Registration.beforePart :=
    filterMap_map_filter regs
  have hafter : ((regs.filter (·.target.afterRequest)).map (·.target)).filterMap
      (Participant.call [.req, .res, .ctx]) = regs.filterMap Registration.afterPart :=
    filterMap_map_filter regs
  simp only [served, launch, registered_eq, registerAll_eq, bind, Except.bind, pure, Except.pure,
    participants, App.applicableMiddleware, Registration.places, List.nil_append,
    List.flatMap_cons, List.filterMap_append, List.map_append, hrust, hmiddleware, hbefore, hafter]
  cases wrapped <;> simp

/-! ## Taking part, registration by registration -/

section Places

variable {α β : Type} {l : List α} {i : Nat} {a : α}

theorem filterMap_eraseIdx_of_none (h : l[i]? = some a) {f : α → Option β} (hf : f a = none) :
    (l.eraseIdx i).filterMap f = l.filterMap f := by
  obtain ⟨hi, rfl⟩ := List.getElem?_eq_some_iff.mp h
  conv_rhs => rw [← List.take_append_drop i l, List.drop_eq_getElem_cons hi]
  rw [List.eraseIdx_eq_take_drop_succ, List.filterMap_append, List.filterMap_append,
    List.filterMap_cons_none hf]

theorem length_filterMap_eraseIdx_lt (h : l[i]? = some a) {f : α → Option β} {b : β}
    (hf : f a = some b) : ((l.eraseIdx i).filterMap f).length < (l.filterMap f).length := by
  obtain ⟨hi, rfl⟩ := List.getElem?_eq_some_iff.mp h
  conv_rhs => rw [← List.take_append_drop i l, List.drop_eq_getElem_cons hi]
  rw [List.eraseIdx_eq_take_drop_succ, List.filterMap_append, List.filterMap_append,
    List.filterMap_cons_some hf]
  simp

theorem length_filterMap_eraseIdx_le (f : α → Option β) :
    ((l.eraseIdx i).filterMap f).length ≤ (l.filterMap f).length :=
  ((List.eraseIdx_sublist l i).filterMap f).length_le

theorem flatMap_eraseIdx_ne_iff (h : l[i]? = some a) (ps : List (List β × (α → Option β))) :
    (ps.flatMap fun s => s.1 ++ (l.eraseIdx i).filterMap s.2) ≠
        (ps.flatMap fun s => s.1 ++ l.filterMap s.2) ↔
      ∃ s ∈ ps, s.2 a ≠ none := by
  -- with nothing to add the lines agree place by place; otherwise their lengths differ
  constructor
  · intro hne
    by_contra hnone
    push Not at hnone
    refine hne (List.flatMap_congr fun s hs => ?_)
    rw [filterMap_eraseIdx_of_none h (hnone s hs)]
  · rintro ⟨s, hs, hsome⟩ heq
    obtain ⟨b, hb⟩ := Option.ne_none_iff_exists'.mp hsome
    have hlen := congrArg List.length heq
    rw [List.length_flatMap, List.length_flatMap] at hlen
    refine absurd hlen (Nat.ne_of_lt (List.sum_lt_sum _ _ (fun s _ => ?_) ⟨s, hs, ?_⟩))
    · rw [List.length_append, List.length_append]
      exact Nat.add_le_add_left (length_filterMap_eraseIdx_le s.2) _
    · rw [List.length_append, List.length_append]
      exact Nat.add_lt_add_left (length_filterMap_eraseIdx_lt h hb) _

end Places

namespace Registration

def HasPlace (r : Registration) (wrapped : Bool) (path : String) : Prop :=
  r.rustPart ≠ none ∨
    wrapped = true ∧ (r.beforePart ≠ none ∨ r.middlewarePart path ≠ none ∨ r.afterPart ≠ none)

end Registration

theorem takesPart_iff {app : App} {regs : List Registration} {i : Nat} {r : Registration}
    (h : regs[i]? = some r) (wrapped : Bool) (path : String) :
    TakesPart app regs i wrapped path ↔ r.HasPlace wrapped path := by
  have hplaces : (∃ s ∈ Registration.places app wrapped path, s.2 r ≠ none) ↔
      r.HasPlace wrapped path := by
    cases wrapped <;> simp [Registration.places, Registration.HasPlace]
  rw [TakesPart, served_eq, served_eq, Ne, Except.ok.injEq, ← Ne, flatMap_eraseIdx_ne_iff h,
    hplaces]

theorem enforced_iff_hasPlace (app : App) (regs : List Registration) (wrapped : Bool)
    (path : String) :
    Enforced app regs wrapped path ↔
      ∀ r ∈ regs, (r.Covers path ↔ r.HasPlace wrapped path) ∧
        ∃ wrapped' path', r.Covers path' ∧ r.HasPlace wrapped' path' := by
  have hok : ¬ ∃ e, launch app regs = .error e := by
    rintro ⟨e, he⟩
    obtain ⟨s, hs⟩ := launch_ok app regs
    rw [he] at hs
    cases hs
  rw [Enforced, or_iff_right hok]
  constructor
  · intro h r hr
    obtain ⟨i, hi⟩ := List.mem_iff_getElem?.mp hr
    obtain ⟨hin, hout, hsome⟩ := h i r hi
    simp only [takesPart_iff hi] at hin hout hsome
    exact ⟨⟨hin, not_imp_not.mp hout⟩, hsome⟩
  · intro h i r hi
    obtain ⟨hiff, hsome⟩ := h r (List.mem_of_getElem? hi)
    simp only [takesPart_iff hi]
    exact ⟨hiff.mp, fun hout hplace => hout (hiff.mpr hplace), hsome⟩

/-! ## The three kinds of registration -/

namespace Registration

variable {r : Registration} {wrapped : Bool} {path : String}

theorem entry_of_scope_none (h : r.scope = none) : r.entry = .plain r.target := by
  obtain ⟨_ | p, f, _⟩ := r
  · rfl
  · have hp : p = "" := by simpa [scope] using h
    simp [entry, hp]

theorem entry_of_scope_some {p : String} (h : r.scope = some p) : r.entry = .scoped p r.target := by
  obtain ⟨_ | q, f, _⟩ := r
  · cases h
  · obtain ⟨rfl, hp⟩ : q = p ∧ p ≠ "" := by simpa [scope] using h
    simp [entry, hp]

theorem hasPlace_rust {id : Nat} {kind : RustKind} (h : r.target = rustObject id kind) :
    r.HasPlace wrapped path ↔ r.scope = none ∧ kind ∈ Server.extracted := by
  have hbefore : r.beforePart = none := by simp [beforePart, h, rustObject]
  have hafter : r.afterPart = none := by simp [afterPart, h, rustObject]
  rw [HasPlace, hbefore, hafter]
  cases hscope : r.scope with
  | none => simp [rustPart, middlewarePart, entry_of_scope_none hscope, h, MwEntry.rustKind,
      MwEntry.applicable, rustObject]
  | some p => simp [rustPart, middlewarePart, entry_of_scope_some hscope, h, MwEntry.rustKind,
      MwEntry.applicable, rustObject]

theorem rustPart_of_python (h : r.target.rust = none) : r.rustPart = none := by
  cases hscope : r.scope with
  | none => simp [rustPart, entry_of_scope_none hscope, MwEntry.rustKind, h]
  | some p => simp [rustPart, entry_of_scope_some hscope, MwEntry.rustKind]

theorem call_ne_none_iff {args : List Arg} {f : PyObject} :
    Participant.call args f ≠ none ↔ f.enters args.length = true := by
  simp [Participant.call]

theorem hasPlace_hook (hmarked : isHook r.target = true) (hpython : r.target.rust = none) :
    r.HasPlace wrapped path ↔ wrapped = true ∧ r.target.enters 3 = true := by
  have hhook : (!r.target.beforeRequest && !r.target.afterRequest) = false := by
    rw [← Bool.not_or]
    exact congrArg (!·) hmarked
  have hmiddleware : r.middlewarePart path = none := by
    cases hscope : r.scope with
    | none => simp [middlewarePart, entry_of_scope_none hscope, MwEntry.applicable, hhook]
    | some p => simp [middlewarePart, entry_of_scope_some hscope, MwEntry.applicable, hhook]
  rw [HasPlace, rustPart_of_python hpython, hmiddleware]
  unfold beforePart afterPart
  obtain hbefore | hafter := Bool.or_eq_true_iff.mp hmarked
  · rw [if_pos hbefore, call_ne_none_iff]
    cases r.target.afterRequest <;> simp [call_ne_none_iff]
  · rw [if_pos hafter, call_ne_none_iff]
    cases r.target.beforeRequest <;> simp [call_ne_none_iff]

theorem hasPlace_middleware (hcallable : r.target.callable = true)
    (hunmarked : isHook r.target = false) (hpython : r.target.rust = none) :
    r.HasPlace wrapped path ↔ wrapped = true ∧ r.target.enters 4 = true ∧
      (r.scope = none → r.target.isMiddleware = true ∨ ∃ n, r.target.argcount = some n ∧ 4 ≤ n) ∧
      ∀ p, r.scope = some p → startsWith path p = true := by
  obtain ⟨hbefore, hafter⟩ := Bool.or_eq_false_iff.mp hunmarked
  rw [HasPlace, rustPart_of_python hpython]
  simp only [beforePart, hbefore, afterPart, hafter]
  cases hscope : r.scope with
  | none =>
    cases hcount : r.target.argcount with
    | none => simp [middlewarePart, entry_of_scope_none hscope, MwEntry.applicable, hcallable,
        hbefore, hafter, hcount, Participant.call, and_comm]
    | some n => simp [middlewarePart, entry_of_scope_none hscope, MwEntry.applicable, hcallable,
        hbefore, hafter, hcount, Participant.call, and_comm]
  | some p => simp [middlewarePart, entry_of_scope_some hscope, MwEntry.applicable, hcallable,
      hbefore, hafter, Participant.call, and_comm]

theorem startsWith_self (p : String) : startsWith p p = true := by
  simp [startsWith]

theorem covers_self (p : String) : covers p p = true := by
  simp [covers, startsWith_self]

theorem Covers.startsWith (h : r.Covers path) {p : String} (hp : r.scope = some p) :
    Application.startsWith path p = true := by
  have hpath : r.path = some p := (Option.filter_eq_some_iff.mp hp).1
  have hcovers := h p hpath
  simp only [covers, Bool.and_eq_true] at hcovers
  exact hcovers.1

theorem exists_covers (r : Registration) : ∃ path, r.Covers path := by
  refine ⟨r.path.getD "/", fun p hp => ?_⟩
  rw [hp]
  exact covers_self p

theorem kept_iff (r : Registration) (wrapped : Bool) (path : String) :
    ((r.Covers path ↔ r.HasPlace wrapped path) ∧
        ∃ wrapped' path', r.Covers path' ∧ r.HasPlace wrapped' path') ↔
      r.Honourable ∧ r.ScopeKept wrapped path := by
  obtain ⟨covered, hcovered⟩ := r.exists_covers
  have husable := r.usable
  generalize htarget : r.target = f at husable
  -- where a registration ends up depends on what kind of thing it is
  cases husable with
  | rust id kind =>
    have hkind : r.target.rust = some kind := by rw [htarget]; rfl
    simp only [hasPlace_rust htarget, Honourable, ScopeKept, hkind, Option.isSome_some, if_true]
    constructor
    · rintro ⟨hiff, _, _, _, hplace⟩
      exact ⟨hplace, hiff.mpr hplace⟩
    · rintro ⟨hplace, hcovers⟩
      exact ⟨⟨fun _ => hplace, fun _ => hcovers⟩, true, covered, hcovered, hplace⟩
  | hook hmarked hpython =>
    subst htarget
    simp only [hasPlace_hook hmarked hpython, Honourable, ScopeKept, hpython, hmarked,
      Option.isSome_none, Bool.false_eq_true, if_false, if_true]
    constructor
    · rintro ⟨hiff, _, _, _, _, henters⟩
      refine ⟨henters, ?_⟩
      cases wrapped <;> simpa [henters] using hiff
    · rintro ⟨henters, hscope⟩
      refine ⟨?_, true, covered, hcovered, rfl, henters⟩
      cases wrapped <;> simpa [henters] using hscope
  | middleware hcallable _ hunmarked hpython =>
    subst htarget
    simp only [hasPlace_middleware hcallable hunmarked hpython, Honourable, ScopeKept, hpython,
      hunmarked, Option.isSome_none, Bool.false_eq_true, if_false]
    constructor
    · rintro ⟨hiff, _, _, _, _, henters, hrecognized, _⟩
      refine ⟨⟨henters, hrecognized⟩, ?_⟩
      cases wrapped with
      | false => simpa using hiff
      | true => exact fun hstarts => hiff.mpr ⟨rfl, henters, hrecognized, hstarts⟩
    · rintro ⟨⟨henters, hrecognized⟩, hscope⟩
      refine ⟨?_, true, covered, hcovered, rfl, henters, hrecognized,
        fun p hp => hcovered.startsWith hp⟩
      cases wrapped with
      | false => simpa using hscope
      | true =>
        refine ⟨fun hcovers => ⟨rfl, henters, hrecognized, fun p hp => hcovers.startsWith hp⟩, ?_⟩
        rintro ⟨_, _, _, hstarts⟩
        exact hscope hstarts

end Registration

theorem enforced_iff_honourable_scopeKept (app : App) (regs : List Registration) (wrapped : Bool)
    (path : String) :
    Enforced app regs wrapped path ↔ ∀ r ∈ regs, r.Honourable ∧ r.ScopeKept wrapped path := by
  rw [enforced_iff_hasPlace]
  exact forall₂_congr fun r _ => r.kept_iff wrapped path

/-- `app.use("/admin", BasicAuthMiddleware(...))` -/
def adminAuth : Registration where
  path := some "/admin"
  target := rustObject 0 .basicAuth
  usable := .rust 0 .basicAuth

def emptyApp : App := ⟨[], [], [], ⟨[], none⟩⟩

theorem path_scoped_auth_dropped :
    ¬ ∀ (app : App) (regs : List Registration) (wrapped : Bool) (path : String),
      Enforced app regs wrapped path := by
  intro h
  rcases h emptyApp [adminAuth] true "/admin/users" with ⟨e, he⟩ | hall
  · cases he
  · obtain ⟨hin, _, _⟩ := hall 0 adminAuth rfl
    have hcovers : adminAuth.Covers "/admin/users" := by
      intro p hp
      obtain rfl : "/admin" = p := Option.some.inj hp
      decide
    exact hin hcovers rfl

end Hypern.Application
