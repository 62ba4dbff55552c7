import Hypern.Http.Uri
import Mathlib.Data.List.AList
import Mathlib.Algebra.Group.Nat.Defs

/-! Requests and responses as the server core holds them. What the core takes from other
crates and from the Unicode tables is a parameter. -/

namespace Hypern.Http

open Lib

abbrev StrMap := AList fun _ : String => String

/-- Functions of the standard library's tables and of the `percent_encoding`, `form_urlencoded` and
`http` crates. -/
structure Crates where
  toLowercase : String → String
  toUppercase : String → String
  /-- `percent_decode_str`, on the bytes of the text. -/
  percentDecodeStr : List UInt8 → List UInt8
  /-- `form_urlencoded::parse`, the pairs in order. -/
  formUrlencoded : String → List (String × String)
  /-- `HeaderName::from_bytes`, the normalized name. -/
  headerName : String → Option String
  /-- `HeaderValue::from_str` -/
  headerValue : String → Option String

/-- ASCII case, queries without parameters, and header fields as they are. -/
def asciiCase : Crates where
  toLowercase := fun s => String.ofList (s.toList.map Char.toLower)
  toUppercase := fun s => String.ofList (s.toList.map Char.toUpper)
  percentDecodeStr := percentDecode
  formUrlencoded := fun _ => []
  headerName := some
  headerValue := some

/-- Collecting pairs into a map; of equal keys the last one stays. -/
def collect (pairs : List (String × String)) : StrMap :=
  pairs.foldl (fun m p => m.insert p.1 p.2) ∅

/-! ## Methods -/

inductive HttpMethod
  | get | post | put | delete | patch | head | options | connect | trace
  deriving DecidableEq

namespace HttpMethod

def asStr : HttpMethod → String
  | .get => "GET"
  | .post => "POST"
  | .put => "PUT"
  | .delete => "DELETE"
  | .patch => "PATCH"
  | .head => "HEAD"
  | .options => "OPTIONS"
  | .connect => "CONNECT"
  | .trace => "TRACE"

def exact (s : String) : Option HttpMethod :=
  match s with
  | "GET" => some .get
  | "POST" => some .post
  | "PUT" => some .put
  | "DELETE" => some .delete
  | "PATCH" => some .patch
  | "HEAD" => some .head
  | "OPTIONS" => some .options
  | "CONNECT" => some .connect
  | "TRACE" => some .trace
  | _ => none

/-- `from_str`, which tries the upper-case form (of ASCII letters) second. -/
def fromStr (s : String) : Option HttpMethod := (exact s).or (exact s.toUpper)

/-- `from_axum`: an extension method counts as `GET`. -/
def fromAxum (s : String) : HttpMethod := (exact s).getD .get

theorem fromStr_asStr (m : HttpMethod) : fromStr m.asStr = some m := by
  cases m <;> rfl

end HttpMethod

/-! ## Header fields -/

/-- `HeaderValue::to_str`: visible ASCII and tabs. -/
def toStr (value : List UInt8) : Option String :=
  if value.all fun b => (32 ≤ b && b < 127) || b == 9 then
    some (String.ofList (value.map fun b => Char.ofNat b.toNat))
  else none

structure HeaderMap where
  headers : StrMap

namespace HeaderMap

def get (c : Crates) (h : HeaderMap) (key : String) : Option String :=
  h.headers.lookup (c.toLowercase key)

def fromAxum (c : Crates) (fields : List (String × List UInt8)) : HeaderMap :=
  ⟨collect (fields.filterMap fun f => (toStr f.2).map fun v => (c.toLowercase f.1, v))⟩

end HeaderMap

/-! ## Requests -/

/-- A request as it comes from the wire. The body is `none` if reading it fails. -/
structure Incoming where
  pathAndQuery : Option (String × Option String)
  method : String
  headers : List (String × List UInt8)
  body : Option (List UInt8)

/-- `str::parse::<usize>` -/
def parseUsize (s : String) : Option Nat :=
  let digits := if s.toList.head? = some '+' then s.toList.tail else s.toList
  if digits.isEmpty || !digits.all Char.isDigit then none
  else
    let n := digits.foldl (fun n d => n * 10 + (d.toNat - '0'.toNat)) 0
    if n < 2 ^ 64 then some n else none

namespace Incoming

def bodyLimit : Nat := 10 * 1024 * 1024

/-- `to_bytes(body, limit).await.ok()` -/
def toBytes (r : Incoming) : Option (List UInt8) := r.body.filter (·.length ≤ bodyLimit)

def hasBody (r : Incoming) : Bool :=
  (((r.headers.lookup "content-length").bind toStr).bind parseUsize).any (0 < ·)

end Incoming

structure Request where
  path : String
  method : HttpMethod
  headers : HeaderMap
  queryString : String
  pathParams : StrMap
  body : Option (List UInt8)

/-- The parameters of a query string, as `QueryParams::parse` and `ensure_query_params` read them. -/
def parseQuery (c : Crates) (queryString : String) : StrMap :=
  if queryString.isEmpty then ∅ else collect (c.formUrlencoded queryString)

namespace Request

def fromAxum (c : Crates) (r : Incoming) : Request :=
  let method := HttpMethod.fromAxum r.method
  { path := decodePath c.percentDecodeStr (r.pathAndQuery.map (·.1))
    method
    headers := HeaderMap.fromAxum c r.headers
    queryString := ((r.pathAndQuery.bind (·.2)).getD "")
    pathParams := ∅
    -- methods that rarely have a body are asked for one only if they announce it
    body := match method with
      | .get | .head | .options | .delete => if r.hasBody then r.toBytes else none
      | _ => r.toBytes }

def setPathParams (r : Request) (params : StrMap) : Request := { r with pathParams := params }

def headersMap (r : Request) : StrMap := r.headers.headers

def header (c : Crates) (r : Request) (name : String) : Option String := r.headers.get c name

def query (c : Crates) (r : Request) (name : String) : Option String :=
  (parseQuery c r.queryString).lookup name

end Request

/-! ## Responses -/

/-- A response of the `http` crate; its header map may hold several values for a name. -/
structure Response where
  status : Nat
  headers : List (String × String)
  body : List UInt8
  deriving DecidableEq

namespace Response

/-- `HeaderMap::insert`, which replaces all values of the name. -/
def insert (r : Response) (name value : String) : Response :=
  { r with headers := r.headers.filter (·.1 ≠ name) ++ [(name, value)] }

theorem mem_headers_insert {r : Response} {name value : String} {f : String × String} :
    f ∈ (r.insert name value).headers ↔ f ∈ r.headers ∧ f.1 ≠ name ∨ f = (name, value) := by
  simp [insert]

end Response

def response404 : Response := ⟨404, [("content-type", "text/plain")], utf8 "Not Found"⟩

end Hypern.Http
