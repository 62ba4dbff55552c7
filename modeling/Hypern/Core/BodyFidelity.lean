import Hypern.Core.Dispatch

/-! Whether a handler sees the body that the client sent. -/

namespace Hypern.Core

open Http Middleware Routing

variable {σ : Type}

/-- Whatever routes there are and whatever middleware: the request carries the bytes that the
client sent, or it reaches no handler, and no handler is given other bytes. -/
def CarriesBody (host : Host σ) (incoming : Incoming) (w : σ) (sent : List UInt8) : Prop :=
  ∀ (F : Type) (state : AppState F),
    let log := (handleRequestInner host state incoming w).log
    ((Request.fromAxum host.toCrates incoming).body.getD [] = sent ∨
      ∀ hash req, .dispatched hash req ∉ log) ∧
    ∀ hash req, .dispatched hash req ∈ log → req.body.getD [] = sent

/-- A router that has a route for every path under each method with a tree. -/
def everyPath : Router Unit :=
  let tree : MatchitRouter Unit := fun path => some (⟨path, (), "GET"⟩, ∅)
  ⟨tree, tree, tree, tree, tree, tree, tree⟩

/-! ## What `from_axum` keeps of a body -/

/-- The methods that no tree is for. -/
def unrouted : List String := ["CONNECT", "TRACE"]

/-- The methods whose requests are always asked for a body. -/
def bodied : List String := ["POST", "PUT", "PATCH"]

theorem body_fromAxum (c : Crates) (incoming : Incoming) :
    (Request.fromAxum c incoming).body =
      if incoming.method ∈ bodied ∨ incoming.method ∈ unrouted ∨ incoming.hasBody = true then
        incoming.toBytes
      else none := by
  unfold Request.fromAxum
  dsimp only
  rcases fromAxum_cases incoming.method with ⟨hsame, -⟩ | ⟨hget, hextension⟩
  · generalize HttpMethod.fromAxum incoming.method = m at hsame ⊢
    rw [← hsame]
    cases m <;> simp [bodied, unrouted, HttpMethod.asStr]
  · have hnone : incoming.method ∉ bodied ∧ incoming.method ∉ unrouted := by
      simp only [bodied, unrouted, List.mem_cons, List.not_mem_nil, or_false]
      refine ⟨?_, ?_⟩
      · rintro (h | h | h)
        · exact hextension ⟨.post, h⟩
        · exact hextension ⟨.put, h⟩
        · exact hextension ⟨.patch, h⟩
      · rintro (h | h)
        · exact hextension ⟨.connect, h⟩
        · exact hextension ⟨.trace, h⟩
    rw [hget]
    simp [hnone]

theorem toBytes_eq_some {incoming : Incoming} {bytes : List UInt8} :
    incoming.toBytes = some bytes ↔
      incoming.body = some bytes ∧ bytes.length ≤ Incoming.bodyLimit := by
  unfold Incoming.toBytes
  rw [Option.filter_eq_some_iff, decide_eq_true_iff]

/-! ## Which requests reach a handler -/

section Routes

variable {host : Host σ} {incoming : Incoming}
  (hupper : ∀ m : HttpMethod, host.toUppercase m.asStr = m.asStr)

include hupper

/-- The methods without a tree are those whose requests are not routed. -/
theorem findRoute_unrouted {F : Type} {state : AppState F} (h : incoming.method ∈ unrouted) :
    findRoute host state (Request.fromAxum host.toCrates incoming) = none := by
  simp only [unrouted, List.mem_cons, List.not_mem_nil, or_false] at h
  unfold findRoute Router.findMatchingRoute
  rcases h with h | h
  · have hmethod : (Request.fromAxum host.toCrates incoming).method = .connect := by
      rw [Request.fromAxum, h]
      rfl
    rw [hmethod, hupper]
    rfl
  · have hmethod : (Request.fromAxum host.toCrates incoming).method = .trace := by
      rw [Request.fromAxum, h]
      rfl
    rw [hmethod, hupper]
    rfl

omit hupper in
theorem findRoute_everyPath (h : incoming.method ∉ unrouted) :
    ∃ found, findRoute host ⟨everyPath, [], [], []⟩ (Request.fromAxum host.toCrates incoming) =
      some found := by
  have hmethod : (Request.fromAxum host.toCrates incoming).method =
      HttpMethod.fromAxum incoming.method := rfl
  unfold findRoute
  rw [hmethod]
  rcases fromAxum_cases incoming.method with ⟨hsame, -⟩ | ⟨hget, -⟩
  · generalize HttpMethod.fromAxum incoming.method = m at hsame ⊢
    cases m with
    | connect => exact absurd (List.mem_cons_self) (hsame ▸ h)
    | trace => exact absurd (List.mem_cons_of_mem _ List.mem_cons_self) (hsame ▸ h)
    | _ => exact ⟨_, rfl⟩
  · rw [hget]
    exact ⟨_, rfl⟩

omit hupper in
/-- There may be a route for the request, so it has to carry a body that is not empty. -/
theorem body_of_carriesBody {sent : List UInt8} {w : σ} (h : CarriesBody host incoming w sent)
    (hempty : sent ≠ []) (hunrouted : incoming.method ∉ unrouted) :
    (Request.fromAxum host.toCrates incoming).body = some sent := by
  obtain ⟨found, hfound⟩ := @findRoute_everyPath σ host incoming hunrouted
  have hdispatched := (@dispatched_mem_iff σ Unit host ⟨everyPath, [], [], []⟩ _ w incoming rfl
    (found.1.handlerHash host.xxh3_64) _).mpr ⟨rfl, found, hfound, rfl, rfl⟩
  have hgiven := (h Unit ⟨everyPath, [], [], []⟩).2 _ _ hdispatched
  have hcarried : (Request.fromAxum host.toCrates incoming).body.getD [] = sent := hgiven
  cases hbytes : (Request.fromAxum host.toCrates incoming).body with
  | none => exact absurd (by rw [← hcarried, hbytes]; rfl) hempty
  | some bytes => rw [← hcarried, hbytes, Option.getD_some]

omit hupper in
theorem body_of_empty (hsent : ∀ bytes ∈ incoming.body, bytes = []) :
    (Request.fromAxum host.toCrates incoming).body.getD [] = [] := by
  rw [body_fromAxum]
  split_ifs with hread
  · cases hbytes : incoming.toBytes with
    | none => rfl
    | some bytes => exact hsent bytes (toBytes_eq_some.mp hbytes).1
  · rfl

omit hupper in
theorem carriesBody_of_body {sent : List UInt8}
    (h : (Request.fromAxum host.toCrates incoming).body.getD [] = sent) (w : σ) :
    CarriesBody host incoming w sent := by
  refine fun F state => ⟨.inl h, fun hash req hmem => ?_⟩
  obtain ⟨-, found, -, -, rfl⟩ := (dispatched_mem_iff rfl).mp hmem
  exact h

/-- A body is lost when the request does not announce it and the method is not one of those that
always have one, and when it cannot be read or is too long. -/
theorem carriesBody_iff {sent : List UInt8} (hsent : ∀ bytes ∈ incoming.body, bytes = sent)
    (w : σ) :
    CarriesBody host incoming w sent ↔
      sent = [] ∨ incoming.method ∈ unrouted ∨
        incoming.body = some sent ∧ sent.length ≤ Incoming.bodyLimit ∧
          (incoming.method ∈ bodied ∨ incoming.hasBody = true) := by
  have hbody := body_fromAxum host.toCrates incoming
  constructor
  · intro h
    by_cases hempty : sent = []
    · exact .inl hempty
    by_cases hunrouted : incoming.method ∈ unrouted
    · exact .inr (.inl hunrouted)
    have hread := body_of_carriesBody h hempty hunrouted
    rw [hbody, Option.ite_none_right_eq_some, toBytes_eq_some] at hread
    obtain ⟨hmethod, hbytes, hlength⟩ := hread
    exact .inr (.inr ⟨hbytes, hlength, hmethod.imp_right fun hor => hor.resolve_left hunrouted⟩)
  · rintro (rfl | hunrouted | ⟨hbytes, hlength, hmethod⟩)
    · exact carriesBody_of_body (body_of_empty hsent) w
    · intro F state
      have hno := @not_dispatched_of_no_route σ F host state _ w incoming rfl
        (findRoute_unrouted hupper hunrouted)
      exact ⟨.inr hno, fun hash req hmem => absurd hmem (hno hash req)⟩
    · refine carriesBody_of_body ?_ w
      rw [hbody, if_pos (hmethod.imp_right .inr), toBytes_eq_some.mpr ⟨hbytes, hlength⟩,
        Option.getD_some]

end Routes

theorem posted_byte_carried : CarriesBody asciiHost ⟨some ("/", none), "POST", [], some [97]⟩ () [97] :=
  (carriesBody_iff (fun m => by cases m <;> decide) (by simp) ()).mpr
    (.inr (.inr ⟨rfl, by decide, .inl (by decide)⟩))

/-- The body of a `DELETE` in chunks, which has no length in its header, is lost. -/
theorem chunked_delete_loses_body :
    ¬ ∀ (incoming : Incoming) (sent : List UInt8), (∀ bytes ∈ incoming.body, bytes = sent) →
      CarriesBody asciiHost incoming () sent := by
  intro h
  have hcarried := (h ⟨some ("/", none), "DELETE", [("transfer-encoding", Lib.utf8 "chunked")],
    some [97]⟩ [97] (by simp) Unit ⟨everyPath, [], [], []⟩).1
  rcases hcarried with hbody | hnone
  · exact absurd hbody (by decide)
  · exact hnone _ _ ((dispatched_mem_iff rfl).mpr ⟨rfl, _, rfl, rfl, rfl⟩)

end Hypern.Core
