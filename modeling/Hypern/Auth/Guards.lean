import Hypern.Auth.Jwt
import Hypern.Core.Context

/-! The decorators of `auth.py` that stand between a request and its handler. Each guard
looks at the request and the context, and lets the call go on with the context it leaves
or stops it with a response or an exception. The async and the sync variant of a wrapper
differ in the `await` only. -/

namespace Hypern.Auth

open Python Hypern.Core

structure AuthRequest where
  header : String → Option String
  query : String → Option String
  cookie : String → Option String

inductive Stop
  | responded (status : Nat) (error message : String)
  | raised (e : PyExc)

def ifTrue : Option String → Option String
  | some s => if s = "" then none else some s
  | none => none

def stripStart (s start : String) : Option String :=
  if start.toList.isPrefixOf s.toList then some (String.ofList (s.toList.drop start.toList.length))
  else none

namespace JWTAuth

def extractToken (auth : JWTAuth) (req : AuthRequest) : Option String :=
  match ifTrue (req.header auth.headerName) with
  | none => none
  | some header =>
    if auth.headerPrefix = "" then some header else stripStart header (auth.headerPrefix ++ " ")

/-- The conversion of `roles` to `Vec<String>` at the call of `set_auth`. -/
def rolesVec : Json → Except PyExc (List String)
  | .list l => l.mapM fun
    | .str s => .ok s
    | v => .error (typeError ("'" ++ v.typeName ++ "' object cannot be converted to 'PyString'"))
  | v => .error (typeError ("'" ++ v.typeName ++ "' object cannot be converted to 'Sequence'"))

/-- `required` up to the call of the decorated function. -/
def required (prims : Primitives) (str : Json → String) (auth : JWTAuth) (req : AuthRequest)
    (now : Int) (ctx : Context Json) : Except Stop (Context Json) :=
  match ifTrue (auth.extractToken req) with
  | none =>
    if auth.autoError then .error (.responded 401 "unauthorized" "Missing authentication token")
    else .ok ctx
  | some token =>
    match auth.decode prims token now with
    | .error e =>
      if !e.isInstance "JWTError" then .error (.raised e)
      else if auth.autoError then .error (.responded 401 "unauthorized" e.message)
      else .ok ctx
    | .ok payload =>
      let ctx := (ctx.setValue "auth_user" (.dict payload)).setValue "auth_token" (.str token)
      let userId := (payload.get? "sub").getD ((payload.get? "user_id").getD .null)
      if userId.truthy then
        match rolesVec ((payload.get? "roles").getD (.list [])) with
        | .error e => .error (.raised e)
        | .ok roles => .ok (ctx.setAuth (str userId) roles)
      else .ok ctx

end JWTAuth

structure APIKeyAuth where
  keys : List (String × String)
  headerName : String := "X-API-Key"
  queryParam : Option String := none
  cookieName : Option String := none
  autoError : Bool := true

namespace APIKeyAuth

def extractKey (auth : APIKeyAuth) (req : AuthRequest) : Option String :=
  ifTrue (req.header auth.headerName) <|>
    (ifTrue auth.queryParam).bind (fun p => ifTrue (req.query p)) <|>
    (ifTrue auth.cookieName).bind (fun c => ifTrue (req.cookie c))

def validateKey (auth : APIKeyAuth) (key : String) : Option String := auth.keys.lookup key

def required (auth : APIKeyAuth) (req : AuthRequest) (ctx : Context Json) :
    Except Stop (Context Json) :=
  match auth.extractKey req with
  | none =>
    if auth.autoError then .error (.responded 401 "unauthorized" "Missing API key") else .ok ctx
  | some key =>
    match auth.validateKey key with
    | none =>
      if auth.autoError then .error (.responded 401 "unauthorized" "Invalid API key") else .ok ctx
    | some client => .ok ((ctx.setValue "api_key" (.str key)).setValue "api_key_client" (.str client))

end APIKeyAuth

/-- `_extract_roles` and `_extract_permissions` up to the final `set`. -/
def extractList (name : String) (ctx : Context Json) : Option Json :=
  match ctx.values.lookup "auth_user" with
  | none | some .null => none
  | some (.dict d) => some ((Dict.get? d name).getD (.list []))
  | some _ => some (.list [])

def satisfied (required : List String) (matchAll : Bool) (members : List HashKey) : Bool :=
  if matchAll then required.all fun r => members.contains (.str r)
  else required.any fun r => members.contains (.str r)

def forbidUnless (ok : Bool) (what : String) (required : List String) (ctx : Context Json) :
    Except Stop (Context Json) :=
  if ok then .ok ctx
  else .error (.responded 403 "forbidden" ("Required " ++ what ++ ": " ++ String.intercalate ", " required))

def authenticationRequired : Stop := .responded 401 "unauthorized" "Authentication required"

def requiresRole (roles : List String) (matchAll : Bool) (ctx : Context Json) :
    Except Stop (Context Json) :=
  match extractList "roles" ctx with
  | none | some .null => .error authenticationRequired
  | some userRoles =>
    match userRoles.toSet with
    | .error e => .error (.raised e)
    | .ok members => forbidUnless (satisfied roles matchAll members) "role(s)" roles ctx

/-- `permissions` lists the set that the decorator makes, in its order of iteration. -/
def requiresPermission (permissions : List String) (matchAll : Bool) (ctx : Context Json) :
    Except Stop (Context Json) :=
  match extractList "permissions" ctx with
  | none => .error authenticationRequired
  | some perms =>
    match perms.toSet with
    | .error e => .error (.raised e)
    | .ok members => forbidUnless (satisfied permissions matchAll members) "permission(s)" permissions ctx

inductive Guard
  | jwt (auth : JWTAuth)
  | apiKey (auth : APIKeyAuth)
  | role (roles : List String) (matchAll : Bool)
  | permission (permissions : List String) (matchAll : Bool)

/-- What the guards of one request share; `str` is Python's. -/
structure AuthEnv where
  prims : Primitives
  str : Json → String
  req : AuthRequest

structure CallState where
  ctx : Context Json
  clock : Nat → Int

def CallState.get (s : CallState) (name : String) : Json := (s.ctx.values.lookup name).getD .null

def Guard.check (env : AuthEnv) (g : Guard) (s : CallState) : Except Stop CallState :=
  match g with
  | .jwt auth =>
    (auth.required env.prims env.str env.req (s.clock 0) s.ctx).map fun ctx =>
      ⟨ctx, fun i => s.clock (i + 1)⟩
  | .apiKey auth => (auth.required env.req s.ctx).map (⟨·, s.clock⟩)
  | .role roles matchAll => (requiresRole roles matchAll s.ctx).map (⟨·, s.clock⟩)
  | .permission permissions matchAll =>
    (requiresPermission permissions matchAll s.ctx).map (⟨·, s.clock⟩)

end Hypern.Auth
