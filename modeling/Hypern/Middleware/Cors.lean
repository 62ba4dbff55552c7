import Hypern.Middleware.Chain

/-! `CorsMiddleware` of `builtin.rs`: what it adds to the response of a request, and what it
answers to the preflight request. -/

namespace Hypern.Middleware

open Http Lib

structure CorsConfig where
  allowedOrigins : List String := ["*"]
  allowedMethods : List HttpMethod := [.get, .post, .put, .delete, .patch, .options]
  allowedHeaders : List String := ["Content-Type", "Authorization", "X-Requested-With"]
  exposeHeaders : List String := []
  allowCredentials : Bool := false
  /-- In seconds. -/
  maxAge : Nat := 86400

structure CorsMiddleware where
  config : CorsConfig

def MiddlewareResponse.forbidden (message : String) : MiddlewareResponse :=
  withTextBody ⟨403, [], []⟩ message

namespace CorsMiddleware

variable (mw : CorsMiddleware) (origin : String)

def isOriginAllowed : Bool :=
  mw.config.allowedOrigins.any fun allowed => allowed == "*" || allowed == origin

def methodsString : String := String.intercalate ", " (mw.config.allowedMethods.map (·.asStr))

def headersString : String := String.intercalate ", " mw.config.allowedHeaders

/-- What the response of a request that is not a preflight request is given. -/
def allowedOrigin : String :=
  if mw.config.allowedOrigins.contains "*" && !mw.config.allowCredentials then "*" else origin

/-- The answer to a preflight request. Here the credentials are not looked at for the origin. -/
def preflight : MiddlewareResponse :=
  let response : MiddlewareResponse := ⟨204, [], []⟩
  let response := response.withHeader "Access-Control-Allow-Origin"
    (if mw.config.allowedOrigins.contains "*" then "*" else origin)
  let response := response.withHeader "Access-Control-Allow-Methods" mw.methodsString
  let response := response.withHeader "Access-Control-Allow-Headers" mw.headersString
  let response := response.withHeader "Access-Control-Max-Age" (toString mw.config.maxAge)
  if mw.config.allowCredentials then response.withHeader "Access-Control-Allow-Credentials" "true"
  else response

def addHeaderIf (b : Bool) (name value : String) : Prog CtxOp CtxOp.Res Empty Unit :=
  if b then Prog.call (CtxOp.addResponseHeader name value) else .ret ()

def execute : MwCode :=
  (Prog.call (CtxOp.getHeader "origin")).bind fun (header : Option String) =>
    let origin := header.getD ""
    if origin = "" then .ret .next
    else if !mw.isOriginAllowed origin then
      .ret (.response (.forbidden "Origin not allowed"))
    else
      (addHeaderIf true "Access-Control-Allow-Origin" (mw.allowedOrigin origin)).bind fun _ =>
      (addHeaderIf mw.config.allowCredentials "Access-Control-Allow-Credentials" "true").bind
        fun _ =>
      (addHeaderIf (!mw.config.exposeHeaders.isEmpty) "Access-Control-Expose-Headers"
        (String.intercalate ", " mw.config.exposeHeaders)).bind fun _ =>
      (Prog.call CtxOp.method).bind fun (method : HttpMethod) =>
      .ret (if method = .options then .response (mw.preflight origin) else .next)

def toRustMiddleware : RustMiddleware := ⟨mw.execute, fun _ => true, fun _ => true⟩

/-! ## What an allowed origin gets -/

variable {σ : Type} {c : Crates} {outside : String → σ → String × σ}

/-- The header fields that are added to the response of a request. -/
def added : List (String × String) :=
  [("Access-Control-Allow-Origin", mw.allowedOrigin origin)] ++
    (if mw.config.allowCredentials then [("Access-Control-Allow-Credentials", "true")] else []) ++
    (if mw.config.exposeHeaders.isEmpty then []
      else [("Access-Control-Expose-Headers", String.intercalate ", " mw.config.exposeHeaders)])

theorem run_addHeaderIf (b : Bool) (name value : String) (x : Exchange σ) :
    Prog.run (Exchange.step c outside) (addHeaderIf b name value) x =
      (.ok (), x.modify fun ctx => { ctx with
        responseHeaders := ctx.responseHeaders ++ if b then [(name, value)] else [] }) := by
  cases b with
  | false => simp [addHeaderIf, Exchange.modify]
  | true => rfl

variable {mw origin}

theorem run_allowed {x : Exchange σ} (hx : x.ctx.getHeader c "origin" = some origin)
    (hne : origin ≠ "") (hallowed : mw.isOriginAllowed origin = true) :
    mw.toRustMiddleware.run c outside x =
      (if x.ctx.method = .options then .response (mw.preflight origin) else .next,
        x.modify fun ctx =>
          { ctx with responseHeaders := ctx.responseHeaders ++ mw.added origin }) := by
  have hexpose (b : Bool) (l : List (String × String)) :
      (if (!b) = true then l else []) = if b = true then [] else l := by
    cases b <;> rfl
  unfold RustMiddleware.run toRustMiddleware execute
  simp only [Prog.run_bind, Prog.run_call, run_addHeaderIf, Exchange.step, Exchange.perform, hx,
    Option.getD_some, hne, hallowed, Bool.not_true, Bool.false_eq_true, if_false, if_true,
    Prog.run_ret, Exchange.modify, added, hexpose, List.append_assoc]

/-! ## The preflight request and the request itself -/

/-- What a browser reads of the header fields: the origins, and the words about credentials. -/
structure CorsPolicy where
  origins : List String
  credentials : List String

def valuesOf (name : String) (headers : List (String × String)) : List String :=
  (headers.filter (·.1 == name)).map (·.2)

def CorsPolicy.ofHeaders (headers : List (String × String)) : CorsPolicy :=
  ⟨valuesOf "Access-Control-Allow-Origin" headers,
    valuesOf "Access-Control-Allow-Credentials" headers⟩

/-- Browsers take no credentials for any origin. -/
def CorsPolicy.Rejected (p : CorsPolicy) : Prop := "*" ∈ p.origins ∧ "true" ∈ p.credentials

def credentials (mw : CorsMiddleware) : List String :=
  if mw.config.allowCredentials then ["true"] else []

theorem ofHeaders_preflight : CorsPolicy.ofHeaders (mw.preflight origin).headers =
    ⟨[if mw.config.allowedOrigins.contains "*" then "*" else origin], mw.credentials⟩ := by
  unfold preflight credentials
  cases mw.config.allowCredentials <;> rfl

theorem ofHeaders_added :
    CorsPolicy.ofHeaders (mw.added origin) = ⟨[mw.allowedOrigin origin], mw.credentials⟩ := by
  unfold added credentials
  cases mw.config.allowCredentials <;> cases mw.config.exposeHeaders.isEmpty <;> rfl

theorem preflight_status : (mw.preflight origin).status = 204 := by
  unfold preflight
  cases mw.config.allowCredentials <;> rfl

/-- The answer to the preflight request `x` says the same as what is added to the response of
the request `x'`, and neither says what browsers reject. -/
def Agrees (c : Crates) (outside : String → σ → String × σ) (mw : CorsMiddleware)
    (x x' : Exchange σ) : Prop :=
  ∃ r new, (mw.toRustMiddleware.run c outside x).1 = .response r ∧ r.status = 204 ∧
    (mw.toRustMiddleware.run c outside x').2.ctx.responseHeaders =
      x'.ctx.responseHeaders ++ new ∧
    CorsPolicy.ofHeaders r.headers = .ofHeaders new ∧
    ¬ (CorsPolicy.ofHeaders r.headers).Rejected ∧ ¬ (CorsPolicy.ofHeaders new).Rejected

theorem cors_agrees_iff {x x' : Exchange σ} (hx : x.ctx.getHeader c "origin" = some origin)
    (hx' : x'.ctx.getHeader c "origin" = some origin) (hne : origin ≠ "")
    (hallowed : mw.isOriginAllowed origin = true) (hoptions : x.ctx.method = .options) :
    Agrees c outside mw x x' ↔
      ¬ ("*" ∈ mw.config.allowedOrigins ∧ mw.config.allowCredentials = true) := by
  have hpreflight : (mw.toRustMiddleware.run c outside x).1 = .response (mw.preflight origin) := by
    rw [run_allowed hx hne hallowed, if_pos hoptions]
  have hadded : (mw.toRustMiddleware.run c outside x').2.ctx.responseHeaders =
      x'.ctx.responseHeaders ++ mw.added origin := by
    rw [run_allowed hx' hne hallowed]
    rfl
  constructor
  · rintro ⟨r, new, hr, _, hnew, _, hrejected, _⟩ ⟨hany, hcredentials⟩
    obtain rfl : mw.preflight origin = r := MiddlewareResult.response.inj (hpreflight.symm.trans hr)
    rw [ofHeaders_preflight] at hrejected
    exact hrejected (by simp [CorsPolicy.Rejected, credentials, hany, hcredentials])
  · intro h
    refine ⟨mw.preflight origin, mw.added origin, hpreflight, preflight_status, hadded, ?_⟩
    rw [ofHeaders_preflight, ofHeaders_added]
    unfold CorsPolicy.Rejected credentials allowedOrigin
    cases hcredentials : mw.config.allowCredentials with
    | false => simp
    | true =>
      -- with credentials the wildcard is not in the list, so the origin was allowed by name
      have hany : "*" ∉ mw.config.allowedOrigins := fun hany => h ⟨hany, hcredentials⟩
      have horigin : origin ≠ "*" := by
        rintro rfl
        obtain ⟨allowed, hmem, heq⟩ := List.any_eq_true.mp hallowed
        simp only [Bool.or_self, beq_iff_eq] at heq
        exact hany (heq ▸ hmem)
      simpa [hany] using horigin.symm

def fromOrigin (origin : String) (method : HttpMethod) : Exchange Unit :=
  ⟨.new "/" method (collect [("origin", origin)]) "" none "", (), []⟩

theorem named_origin_agrees : Agrees asciiCase (fun _ w => ("", w))
    ⟨{ allowedOrigins := ["https://a.example"], allowCredentials := true }⟩
    (fromOrigin "https://a.example" .options) (fromOrigin "https://a.example" .get) :=
  (@cors_agrees_iff ⟨{ allowedOrigins := ["https://a.example"], allowCredentials := true }⟩
    "https://a.example" _ asciiCase (fun _ w => ("", w)) (fromOrigin "https://a.example" .options)
    (fromOrigin "https://a.example" .get) (by decide) (by decide) (by decide) (by decide)
    rfl).mpr (by decide)

/-- Any origin, with credentials: the preflight answer is one that browsers reject. -/
theorem any_origin_with_credentials :
    ¬ ∀ (mw : CorsMiddleware) (origin : String) (x x' : Exchange Unit),
      x.ctx.getHeader asciiCase "origin" = some origin →
      x'.ctx.getHeader asciiCase "origin" = some origin → origin ≠ "" →
      mw.isOriginAllowed origin = true → x.ctx.method = .options → x'.ctx.method ≠ .options →
        Agrees asciiCase (fun _ w => ("", w)) mw x x' := by
  intro h
  obtain ⟨r, new, hr, _, _, _, hrejected, _⟩ := h ⟨{ allowCredentials := true }⟩
    "https://a.example" (fromOrigin "https://a.example" .options)
    (fromOrigin "https://a.example" .get) (by decide) (by decide) (by decide) (by decide) rfl
    (by decide)
  have hpreflight := (congrArg Prod.fst (@run_allowed ⟨{ allowCredentials := true }⟩
    "https://a.example" _ asciiCase (fun _ w => ("", w))
    (fromOrigin "https://a.example" .options) (by decide) (by decide) (by decide))).symm.trans hr
  obtain rfl := MiddlewareResult.response.inj hpreflight
  exact hrejected ⟨by decide, by decide⟩

end CorsMiddleware

end Hypern.Middleware
