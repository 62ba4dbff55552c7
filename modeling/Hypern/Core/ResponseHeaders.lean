import Hypern.Core.Worker
import Hypern.Lib.Fallible
import Mathlib.Data.List.Induction

/-! Which of the headers that before-middleware adds with `add_response_header` are in the
response, at each exit of `handle_request_inner`. -/

namespace Hypern.Core

open Http Lib Middleware Routing MiddlewareChain

variable {σ F : Type}

def validHeaders (host : Host σ) (x : Exchange σ) : List (String × String) :=
  x.ctx.responseHeaders.filterMap (validHeader host)

/-- Every valid header that the before-middleware added is in the response. -/
def HeadersReach (host : Host σ) (state : AppState F) (incoming : Incoming) (w : σ) : Prop :=
  let req := Request.fromAxum host.toCrates incoming
  ∀ field ∈ validHeaders host (beforePhase host state req w).2,
    field ∈ (handleRequestInner host state incoming w).response.headers

def lastValue (fields : List (String × String)) (name : String) : Option String :=
  fields.reverse.lookup name

/-- The list a response of the chain is built from: its own headers and the length. -/
def ownHeaders (r : MiddlewareResponse) : List (String × String) :=
  r.headers ++ [("content-length", toString r.body.length)]

/-- The builder takes the response as it is, and `field` is one of its own headers. -/
structure OwnHeader (host : Host σ) (r : MiddlewareResponse) (field : String × String) : Prop where
  status : 100 ≤ r.status ∧ r.status < 1000
  valid : ∀ h ∈ ownHeaders r, (validHeader host h).isSome
  own : ∃ h ∈ ownHeaders r, validHeader host h = some field

/-- At the exit behind the handler each of the headers is the last one added under its name.
At the other exits the response is built without them, and has each of its own accord. -/
def Carried (host : Host σ) (state : AppState F) (incoming : Incoming) (w : σ) : Prop :=
  let req := Request.fromAxum host.toCrates incoming
  let x := (beforePhase host state req w).2
  match (beforePhase host state req w).1 with
  | .next =>
    if (findRoute host state req).isSome then
      ∀ field ∈ validHeaders host x,
        lastValue (validHeaders host (runHandler host state req x).2) field.1 = some field.2
    else ∀ field ∈ validHeaders host x, field = ("content-type", "text/plain")
  | .response r => ∀ field ∈ validHeaders host x, OwnHeader host r field
  | .error e =>
    ∀ r, (state.middleware.executeError host.toCrates host.outside e x).1 = some r →
      ∀ field ∈ validHeaders host x, OwnHeader host r field

/-! ## Inserting headers one after another -/

theorem applyHeaders_eq (host : Host σ) (headers : List (String × String)) (res : Response) :
    applyHeaders host headers res =
      (headers.filterMap (validHeader host)).foldl (fun r f => r.insert f.1 f.2) res := by
  induction headers generalizing res with
  | nil => rfl
  | cons h headers ih =>
    unfold applyHeaders at ih ⊢
    rw [List.foldl_cons, ih, List.filterMap_cons]
    cases validHeader host h <;> rfl

theorem lastValue_concat (fields : List (String × String)) (f : String × String) (name : String) :
    lastValue (fields ++ [f]) name = if f.1 = name then some f.2 else lastValue fields name := by
  obtain ⟨key, value⟩ := f
  rw [lastValue, List.reverse_append, List.reverse_singleton, List.singleton_append,
    List.lookup_cons]
  by_cases h : key = name
  · simp [h]
  · have hbeq : (name == key) = false := beq_false_of_ne (Ne.symm h)
    simp [h, hbeq, lastValue]

theorem mem_foldl_insert {fields : List (String × String)} {res : Response}
    {f : String × String} (h : ∃ value, (f.1, value) ∈ fields) :
    f ∈ (fields.foldl (fun r f => r.insert f.1 f.2) res).headers ↔
      lastValue fields f.1 = some f.2 := by
  -- from the right: the last insertion decides about its own name and leaves the others
  induction fields using List.reverseRecOn with
  | nil => simp at h
  | append_singleton fields g ih =>
    rw [List.foldl_append, List.foldl_cons, List.foldl_nil, lastValue_concat,
      Response.mem_headers_insert]
    by_cases hname : g.1 = f.1
    · rw [if_pos hname, or_iff_right fun hf => hf.2 hname.symm]
      constructor
      · rintro rfl
        rfl
      · intro hvalue
        exact Prod.ext hname.symm (Option.some.inj hvalue).symm
    · obtain ⟨value, hmem⟩ := h
      have hold : (f.1, value) ∈ fields := by
        rcases List.mem_append.mp hmem with hold | hnew
        · exact hold
        · exact absurd (congrArg Prod.fst (List.mem_singleton.mp hnew)).symm hname
      rw [if_neg hname, ← ih ⟨value, hold⟩, or_iff_left fun hf => hname (congrArg Prod.fst hf).symm,
        and_iff_left (Ne.symm hname)]

/-! ## Headers once added stay in the context -/

theorem perform_responseHeaders {c : Crates} {outside : String → σ → String × σ} (op : CtxOp)
    (x : Exchange σ) :
    x.ctx.responseHeaders <+: (Exchange.perform c outside op x).2.ctx.responseHeaders := by
  cases op with
  | addResponseHeader name value => exact List.prefix_append _ _
  | _ => exact List.prefix_refl _

theorem validHeaders_subset_runHandler (host : Host σ) (state : AppState F) (req : Request)
    (x : Exchange σ) :
    validHeaders host x ⊆ validHeaders host (runHandler host state req x).2 := by
  suffices hgrows : x.ctx.responseHeaders <+: (runHandler host state req x).2.ctx.responseHeaders by
    intro field hfield
    obtain ⟨h, hmem, hvalid⟩ := List.mem_filterMap.mp hfield
    exact List.mem_filterMap.mpr ⟨h, hgrows.subset hmem, hvalid⟩
  cases hroute : findRoute host state req with
  | none => exact ⟨[], by rw [runHandler_unmatched hroute, List.append_nil]⟩
  | some found =>
    rw [runHandler_matched hroute]
    refine execute_preserves (x.ctx.responseHeaders <+: ·.ctx.responseHeaders)
      (fun op x' hx' => hx'.trans (perform_responseHeaders op x')) (fun x' e _ hx' => hx') _ _ ?_
    exact List.prefix_refl _

/-! ## The exits -/

theorem executeError_some (c : Crates) (outside : String → σ → String × σ) (chain : MiddlewareChain)
    (e : MiddlewareError) (x : Exchange σ) : ∃ r, (chain.executeError c outside e x).1 = some r := by
  unfold executeError
  dsimp only
  split
  · exact ⟨_, rfl⟩
  · exact ⟨_, rfl⟩

theorem mem_headers_middlewareResponseToHyper {host : Host σ} {r : MiddlewareResponse}
    {field : String × String} :
    field ∈ (middlewareResponseToHyper host r).headers ↔ OwnHeader host r field := by
  unfold middlewareResponseToHyper
  dsimp only
  rw [← ownHeaders]
  cases hall : (ownHeaders r).mapM (validHeader host) with
  | none =>
    refine iff_of_false List.not_mem_nil fun hown => ?_
    obtain ⟨h, hmem, hnone⟩ := mapM_eq_none_iff.mp hall
    have hsome := hown.valid h hmem
    rw [hnone] at hsome
    exact absurd hsome (by decide)
  | some headers =>
    dsimp only
    by_cases hstatus : 100 ≤ r.status ∧ r.status < 1000
    · have hvalid : ∀ h ∈ ownHeaders r, (validHeader host h).isSome := by
        intro h hmem
        rw [Option.isSome_iff_ne_none]
        intro hnone
        have hfails := mapM_eq_none_iff.mpr ⟨h, hmem, hnone⟩
        rw [hall] at hfails
        exact absurd hfails (by simp)
      rw [if_pos (by simpa using hstatus), mem_mapM_some hall]
      exact ⟨fun hown => ⟨hstatus, hvalid, hown⟩, OwnHeader.own⟩
    · rw [if_neg (by simpa using hstatus)]
      exact iff_of_false List.not_mem_nil fun hown => hstatus hown.status

theorem mem_headers_runHandler {host : Host σ} {state : AppState F} {req : Request}
    {found : Route F × StrMap} (hroute : findRoute host state req = some found) {x : Exchange σ}
    {field : String × String} (hfield : field ∈ validHeaders host x) :
    field ∈ (runHandler host state req x).1.headers ↔
      lastValue (validHeaders host (runHandler host state req x).2) field.1 = some field.2 := by
  have hsent := validHeaders_subset_runHandler host state req x hfield
  rw [runHandler_matched hroute] at hsent ⊢
  dsimp only at hsent ⊢
  rw [applyHeaders_eq]
  exact mem_foldl_insert ⟨field.2, hsent⟩

theorem headersReach_iff_carried (host : Host σ) (state : AppState F) (incoming : Incoming)
    (w : σ) : HeadersReach host state incoming w ↔ Carried host state incoming w := by
  unfold HeadersReach Carried handleRequestInner
  generalize Request.fromAxum host.toCrates incoming = req
  dsimp only
  cases hbefore : state.middleware.before with
  | nil =>
    -- without before-middleware there is nothing to carry, on the fast path too
    have hphase : beforePhase host state req w = (.next, startContext host req w) := by
      simp [beforePhase, executeBefore, hbefore, execute]
    have hnone : validHeaders host (startContext host req w) = [] := rfl
    simp [hphase, hnone]
  | cons m ms =>
    have hempty : state.middleware.isEmptyBefore = false := by simp [isEmptyBefore, hbefore]
    rw [hempty]
    simp only [Bool.not_false, if_true, slowPath]
    rcases beforePhase host state req w with ⟨_ | r | e, x⟩
    · dsimp only
      cases hroute : findRoute host state req with
      | none =>
        rw [runHandler_unmatched hroute]
        simp only [Option.isSome_none, Bool.false_eq_true, if_false]
        exact forall₂_congr fun field _ => List.mem_singleton
      | some found =>
        simp only [Option.isSome_some, if_true]
        exact forall₂_congr fun field hfield => mem_headers_runHandler hroute hfield
    · exact forall₂_congr fun field _ => mem_headers_middlewareResponseToHyper
    -- the chain answers every error, so the branch without an answer is never taken
    · obtain ⟨r, hr⟩ := executeError_some host.toCrates host.outside state.middleware e x
      simp only
      generalize state.middleware.executeError host.toCrates host.outside e x = answer at hr ⊢
      obtain ⟨_, x'⟩ := answer
      subst hr
      simp [mem_headers_middlewareResponseToHyper]

def addHeader (name value : String) : RustMiddleware :=
  ⟨.perform (.addResponseHeader name value) fun _ => .ret .next, fun _ => true, fun _ => true⟩

theorem header_missing_from_404 :
    ¬ ∀ (σ F : Type) (host : Host σ) (state : AppState F) (incoming : Incoming) (w : σ),
      HeadersReach host state incoming w := by
  intro h
  have hreach := h Unit Unit plainHost ⟨oneRoute, [addHeader "x-request-id" "1"], [], []⟩
    ⟨some ("/missing", none), "GET", [], none⟩ () ("x-request-id", "1") (by decide +kernel)
  exact absurd hreach (by decide +kernel)

end Hypern.Core
