import Hypern.Http.ResponseSlot
import Hypern.Lib.Run
import Hypern.Python.Convert
import Hypern.Python.Object

/-! The methods of `Response` that set header fields. Each of them adds to one list, which `get`
reads from its front, and of which the response gets every field. -/

namespace Hypern.Http

open Lib Python ResponseSlot

namespace ContentTypes

def json : String := "application/json"

def html : String := "text/html; charset=utf-8"

def text : String := "text/plain; charset=utf-8"

def octetStream : String := "application/octet-stream"

end ContentTypes

variable {F : F64} {S : Type}

/-- What `str` answers for an object, and `simd_json::to_vec`. -/
structure Serializer (F : F64) where
  str : PyValue F → Except PyExc PyStr
  toVec : JsonValue F → Except String (List UInt8)

def serializePyToJson (ser : Serializer F) (obj : PyValue F) : Except PyExc (List UInt8) := do
  let value ← pyToJsonValue ser.str obj
  (ser.toVec value).mapError fun e => builtinError "ValueError" ("JSON serialization error: " ++ e)

/-- `extract::<Vec<u8>>()`, for which a list is a sequence like any other. -/
def extractVec : PyValue F → Option (List UInt8)
  | .list items => items.mapM PyValue.extractU8
  | v => v.extractBytes

def stringItem (item : PyValue F × PyValue F) : Except PyExc (String × String) := do
  let k ← item.1.extractString
  let v ← item.2.extractString
  return (k, v)

/-! ## The methods -/

namespace PyResponse

variable (c : Crates) (ser : Serializer F) (slot : ResponseSlot S)

def header (key value : String) : ResponseSlot S := slot.addHeader key value

def set (key value : String) : ResponseSlot S := slot.addHeader key value

/-- The fields before an item that cannot be read are set. -/
def headers (slot : ResponseSlot S) :
    List (PyValue F × PyValue F) → Except PyExc Unit × ResponseSlot S
  | [] => (.ok (), slot)
  | item :: items =>
    match stringItem item with
    | .error e => (.error e, slot)
    | .ok (k, v) => headers (slot.addHeader k v) items

def location (url : String) : ResponseSlot S := slot.addHeader "Location" url

def etag (etag : String) : ResponseSlot S :=
  let etagVal := if etag.startsWith '"' then etag else "\"" ++ etag ++ "\""
  slot.addHeader "ETag" etagVal

def contentType (contentType : String) : ResponseSlot S := slot.addHeader "Content-Type" contentType

def type (contentType : String) : ResponseSlot S := slot.addHeader "Content-Type" contentType

/-- A `Content-Type` for a slot that has none. -/
def defaultType (contentType : String) : ResponseSlot S :=
  if (slot.getHeader c "Content-Type").isNone then slot.addHeader "Content-Type" contentType
  else slot

def send (body : PyValue F) : Except PyExc Unit × ResponseSlot S :=
  match body.extractString with
  | .ok s => (.ok (), ((defaultType c slot ContentTypes.html).setBodyStr s).markReady)
  | .error _ =>
    match extractVec body with
    | some bytes => (.ok (), ((defaultType c slot ContentTypes.octetStream).setBody bytes).markReady)
    | none =>
      if body.isNone then (.ok (), (slot.setBody []).markReady)
      else
        match serializePyToJson ser body with
        | .error e => (.error e, slot)
        | .ok bytes =>
          (.ok (), ((slot.addHeader "Content-Type" ContentTypes.json).setBody bytes).markReady)

def json (data : PyValue F) : Except PyExc Unit × ResponseSlot S :=
  match serializePyToJson ser data with
  | .error e => (.error e, slot)
  | .ok bytes =>
    (.ok (), ((slot.addHeader "Content-Type" ContentTypes.json).setBody bytes).markReady)

def html (html : String) : ResponseSlot S :=
  ((slot.addHeader "Content-Type" ContentTypes.html).setBodyStr html).markReady

def text (text : String) : ResponseSlot S :=
  ((slot.addHeader "Content-Type" ContentTypes.text).setBodyStr text).markReady

end PyResponse

inductive SetCall (F : F64)
  | header (key value : String)
  | set (key value : String)
  | headers (items : List (PyValue F × PyValue F))
  | contentType (contentType : String)
  | type (contentType : String)
  | location (url : String)
  | etag (etag : String)
  | send (body : PyValue F)
  | json (data : PyValue F)
  | html (html : String)
  | text (text : String)

namespace SetCall

/-- The slot after a call, which may have raised. -/
def perform (c : Crates) (ser : Serializer F) (slot : ResponseSlot S) :
    SetCall F → ResponseSlot S
  | .header key value => PyResponse.header slot key value
  | .set key value => PyResponse.set slot key value
  | .headers items => (PyResponse.headers slot items).2
  | .contentType value => PyResponse.contentType slot value
  | .type value => PyResponse.type slot value
  | .location url => PyResponse.location slot url
  | .etag tag => PyResponse.etag slot tag
  | .send body => (PyResponse.send c ser slot body).2
  | .json data => (PyResponse.json ser slot data).2
  | .html content => PyResponse.html slot content
  | .text content => PyResponse.text slot content

/-! ## What a call sets -/

/-- The items up to the first that cannot be read. -/
def stringItems : List (PyValue F × PyValue F) → List (String × String)
  | [] => []
  | item :: items =>
    match stringItem item with
    | .error _ => []
    | .ok field => field :: stringItems items

def defaulted (c : Crates) (earlier : List (String × String)) (contentType : String) :
    List (String × String) :=
  if named c "Content-Type" earlier = [] then [("Content-Type", contentType)] else []

def jsonType (ser : Serializer F) (data : PyValue F) : List (String × String) :=
  match serializePyToJson ser data with
  | .error _ => []
  | .ok _ => [("Content-Type", ContentTypes.json)]

def sentType (c : Crates) (ser : Serializer F) (earlier : List (String × String))
    (body : PyValue F) : List (String × String) :=
  match body.extractString, extractVec body with
  | .ok _, _ => defaulted c earlier ContentTypes.html
  | .error _, some _ => defaulted c earlier ContentTypes.octetStream
  | .error _, none => if body.isNone then [] else jsonType ser body

/-- The fields that a call sets after the `earlier` ones. -/
def sets (c : Crates) (ser : Serializer F) (earlier : List (String × String)) :
    SetCall F → List (String × String)
  | .header key value => [(key, value)]
  | .set key value => [(key, value)]
  | .headers items => stringItems items
  | .contentType value => [("Content-Type", value)]
  | .type value => [("Content-Type", value)]
  | .location url => [("Location", url)]
  | .etag tag => [("ETag", if tag.startsWith '"' then tag else "\"" ++ tag ++ "\"")]
  | .send body => sentType c ser earlier body
  | .json data => jsonType ser data
  | .html _ => [("Content-Type", ContentTypes.html)]
  | .text _ => [("Content-Type", ContentTypes.text)]

def step (c : Crates) (ser : Serializer F) (slot : ResponseSlot S) (call : SetCall F) :
    Option (ResponseSlot S) := some (call.perform c ser slot)

/-- The fields that are set, call after call. -/
def record (c : Crates) (ser : Serializer F) (earlier : List (String × String)) (call : SetCall F) :
    Option (List (String × String)) := some (earlier ++ call.sets c ser earlier)

variable {c : Crates} {ser : Serializer F} (slot : ResponseSlot S)

theorem headers_headers (items : List (PyValue F × PyValue F)) :
    (PyResponse.headers slot items).2.headers = slot.headers ++ stringItems items := by
  induction items generalizing slot with
  | nil => exact (List.append_nil _).symm
  | cons item items ih =>
    unfold PyResponse.headers stringItems
    cases stringItem item with
    | error e => exact (List.append_nil _).symm
    | ok field =>
      have hpush : (slot.addHeader field.1 field.2).headers = slot.headers ++ [field] := rfl
      show (PyResponse.headers (slot.addHeader field.1 field.2) items).2.headers = _
      rw [ih, hpush, List.append_assoc]
      rfl

theorem headers_defaultType (contentType : String) :
    (PyResponse.defaultType c slot contentType).headers =
      slot.headers ++ defaulted c slot.headers contentType := by
  unfold PyResponse.defaultType defaulted
  rw [getHeader_eq]
  simp only [Option.isNone_iff_eq_none, List.head?_eq_none_iff]
  split_ifs
  · rfl
  · exact (List.append_nil _).symm

theorem headers_json (data : PyValue F) :
    (PyResponse.json ser slot data).2.headers = slot.headers ++ jsonType ser data := by
  unfold PyResponse.json jsonType
  cases serializePyToJson ser data with
  | error e => exact (List.append_nil _).symm
  | ok bytes => rfl

theorem headers_send (body : PyValue F) :
    (PyResponse.send c ser slot body).2.headers =
      slot.headers ++ sentType c ser slot.headers body := by
  unfold PyResponse.send sentType
  cases body.extractString with
  | ok s => exact headers_defaultType slot ContentTypes.html
  | error e =>
    cases extractVec body with
    | some bytes => exact headers_defaultType slot ContentTypes.octetStream
    | none =>
      by_cases hnone : body.isNone = true
      · simp only [hnone, if_true]
        exact (List.append_nil _).symm
      · simp only [hnone]
        exact headers_json slot body

/-- No call replaces a field. -/
theorem headers_perform (call : SetCall F) :
    (call.perform c ser slot).headers = slot.headers ++ call.sets c ser slot.headers := by
  cases call with
  | headers items => exact headers_headers slot items
  | send body => exact headers_send slot body
  | json data => exact headers_json slot data
  | _ => rfl

/-! ## Runs -/

theorem headers_run (calls : List (SetCall F)) :
    (calls.foldl (perform c ser) slot).headers =
      calls.foldl (fun earlier call => earlier ++ call.sets c ser earlier) slot.headers := by
  induction calls generalizing slot with
  | nil => rfl
  | cons call calls ih => rw [List.foldl_cons, List.foldl_cons, ih, headers_perform]

/-- The values of `Content-Type` that the calls set, in their order. -/
def types (c : Crates) (ser : Serializer F) (calls : List (SetCall F)) : List String :=
  named c "Content-Type" (calls.foldl (fun earlier call => earlier ++ call.sets c ser earlier) [])

/-- After a call that sets a single-valued field, `get` returns the value that it sets. -/
def Replaces (c : Crates) (ser : Serializer F) (single : String → Prop) (slot : ResponseSlot S)
    (call : SetCall F) : Prop :=
  ∀ key, single (c.toLowercase key) → ∀ v ∈ (named c key (call.sets c ser slot.headers)).getLast?,
    (call.perform c ser slot).getHeader c key = some v

/-- The response has one `Content-Type`, the last one that was set. -/
def HasLastType (c : Crates) (ser : Serializer F) (S : Type) (calls : List (SetCall F)) : Prop :=
  ∀ v ∈ (types c ser calls).getLast?,
    ((calls.foldl (perform c ser) (.new : ResponseSlot S)).intoResponse c).1.headers.valuesOf
      "content-type" = [v]

/-- A call that sets a single-valued field sets it to the value that it was set to first. -/
def SetsFirst (c : Crates) (ser : Serializer F) (single : String → Prop)
    (earlier : List (String × String)) (call : SetCall F) : Prop :=
  ∀ key, single (c.toLowercase key) → ∀ v ∈ (named c key (call.sets c ser earlier)).getLast?,
    ∀ u ∈ (named c key earlier ++ named c key (call.sets c ser earlier)).head?, u = v

/-- Of the values of `Content-Type` that are set, the last one is valid and no other. -/
def OneValidType (c : Crates) (ser : Serializer F) (calls : List (SetCall F)) : Prop :=
  ∀ v ∈ (types c ser calls).getLast?, (c.headerValue v).isSome = true ∧
    ∀ u ∈ (types c ser calls).dropLast, c.headerValue u = none

theorem named_append (key : String) (fields fields' : List (String × String)) :
    named c key (fields ++ fields') = named c key fields ++ named c key fields' :=
  List.filterMap_append

theorem replaces_iff (single : String → Prop) (call : SetCall F) :
    Replaces c ser single slot call ↔ SetsFirst c ser single slot.headers call := by
  unfold Replaces SetsFirst
  apply forall_congr'
  intro key
  apply imp_congr_right
  intro _
  apply forall_congr'
  intro v
  apply imp_congr_right
  intro hv
  rw [getHeader_eq, headers_perform, SetCall.named_append]
  have hne : named c key slot.headers ++ named c key (call.sets c ser slot.headers) ≠ [] := by
    intro hnil
    rw [(List.append_eq_nil_iff.mp hnil).2] at hv
    cases hv
  obtain ⟨u, rest, hfields⟩ := List.exists_cons_of_ne_nil hne
  rw [hfields, List.head?_cons]
  simp

end SetCall

/-! ## The response -/

/-- The `http` crate takes as `content-type` what is so in lower case. -/
structure TypeCrate extends HeaderCrate where
  headerName_contentType : ∀ key,
    headerName key = some "content-type" ↔ toLowercase key = toLowercase "Content-Type"

def asciiTypes : TypeCrate where
  toHeaderCrate := asciiHeaders
  headerName_contentType key := by
    have hlower : asciiLowercase "Content-Type" = "content-type" := by decide +kernel
    show some (asciiLowercase key) = some "content-type" ↔
      asciiLowercase key = asciiLowercase "Content-Type"
    rw [hlower, Option.some.injEq]

variable (h : HeaderCrate) (slot : ResponseSlot S)

theorem valuesOf_appended (name : String) :
    (slot.appended h.toCrates).valuesOf name =
      slot.headers.filterMap fun f => if h.headerName f.1 = some name then h.headerValue f.2 else none := by
  unfold HeaderFields.valuesOf appended
  induction slot.headers with
  | nil => rfl
  | cons f fields ih =>
    rw [List.filterMap_cons, List.filterMap_cons]
    cases hname : h.headerName f.1 with
    | none => simpa [hname] using ih
    | some n =>
      have hlower := h.headerName_lower hname
      cases hvalue : h.headerValue f.2 with
      | none => simpa [hname, hvalue] using ih
      | some v =>
        by_cases heq : n = name
        · subst heq
          simpa [hname, hvalue, hlower] using ih
        · simpa [hname, hvalue, hlower, heq] using ih

theorem valuesOf_intoResponse {name : String} (hserver : name ≠ "server")
    (hlength : name ≠ "content-length") (hencoding : name ≠ "transfer-encoding") :
    (slot.intoResponse h.toCrates).1.headers.valuesOf name =
      (slot.appended h.toCrates).valuesOf name := by
  have hstart := normalized_served h slot
  have hchunked := normalized_chunked h slot
  have hserved : ((slot.appended h.toCrates).orInsert "server" "Hypern").valuesOf name =
      (slot.appended h.toCrates).valuesOf name := by
    unfold HeaderFields.orInsert
    split_ifs
    · rfl
    · rw [HeaderFields.valuesOf_append]
      simp [HeaderFields.valuesOf, asciiLowercase_server, Ne.symm hserver]
  unfold intoResponse
  dsimp only
  cases slot.body with
  | buffered data =>
    show HeaderFields.valuesOf (HeaderFields.insert _ "content-length" _) name = _
    rw [HeaderFields.valuesOf_insert hstart asciiLowercase_contentLength, if_neg hlength, hserved]
  | streaming receiver =>
    show HeaderFields.valuesOf (HeaderFields.remove _ "content-length") name = _
    rw [HeaderFields.valuesOf_remove hchunked, if_neg hlength,
      HeaderFields.valuesOf_insert hstart asciiLowercase_transferEncoding, if_neg hencoding, hserved]

/-- The response has the valid ones of the values that were set. -/
theorem contentType_intoResponse (c : TypeCrate) :
    (slot.intoResponse c.toCrates).1.headers.valuesOf "content-type" =
      (named c.toCrates "Content-Type" slot.headers).filterMap c.headerValue := by
  rw [valuesOf_intoResponse c.toHeaderCrate slot (by decide) (by decide) (by decide),
    valuesOf_appended]
  unfold named
  rw [List.filterMap_filterMap]
  apply congrArg (List.filterMap · slot.headers)
  funext f
  simp only [c.headerName_contentType]
  split_ifs <;> rfl

namespace SetCall

theorem filterMap_eq_singleton_getLast {valid : String → Option String}
    (heq : ∀ {text value}, valid text = some value → value = text) {l : List String} {v : String}
    (h : l.getLast? = some v) :
    l.filterMap valid = [v] ↔ (valid v).isSome = true ∧ ∀ u ∈ l.dropLast, valid u = none := by
  have hsplit : l.filterMap valid = l.dropLast.filterMap valid ++ (valid v).toList := by
    conv_lhs => rw [← List.dropLast_append_getLast? v h, List.filterMap_append]
    cases hv : valid v <;> simp [hv]
  rw [hsplit]
  cases hv : valid v with
  | none =>
    rw [Option.toList_none, List.append_nil]
    constructor
    · intro hone
      have hmem : v ∈ l.dropLast.filterMap valid := hone ▸ List.mem_singleton_self v
      obtain ⟨u, -, hu⟩ := List.mem_filterMap.mp hmem
      rw [← heq hu, hv] at hu
      cases hu
    · rintro ⟨hvalid, -⟩
      cases hvalid
  | some w =>
    have hw : w = v := heq hv
    rw [hw, Option.toList_some, List.append_left_eq_self, List.filterMap_eq_nil_iff]
    exact (and_iff_right rfl).symm

theorem hasLastType_iff (c : TypeCrate) (ser : Serializer F) (calls : List (SetCall F)) :
    HasLastType c.toCrates ser S calls ↔ OneValidType c.toCrates ser calls := by
  unfold HasLastType OneValidType
  apply forall_congr'
  intro v
  apply imp_congr_right
  intro hv
  rw [contentType_intoResponse, headers_run]
  exact filterMap_eq_singleton_getLast c.headerValue_eq hv

/-- Setting replaces exactly if every call sets what was set first, and of the values of
`Content-Type` only the last one is valid. -/
theorem replaces_run_iff (c : TypeCrate) (ser : Serializer F) (single : String → Prop)
    (calls : List (SetCall F)) :
    (Along (step c.toCrates ser) (Replaces c.toCrates ser single) (.new : ResponseSlot S) calls ∧
        HasLastType c.toCrates ser S calls) ↔
      (Along (record c.toCrates ser) (SetsFirst c.toCrates ser single) [] calls ∧
        OneValidType c.toCrates ser calls) := by
  have hrecord : ∀ (slot : ResponseSlot S) call, record c.toCrates ser slot.headers call =
      (step c.toCrates ser slot call).map ResponseSlot.headers := by
    intro slot call
    unfold record step
    rw [Option.map_some, headers_perform]
  have hrun : Along (step c.toCrates ser)
      (fun (slot : ResponseSlot S) call => SetsFirst c.toCrates ser single slot.headers call) .new
        calls ↔ Along (record c.toCrates ser) (SetsFirst c.toCrates ser single) [] calls :=
    along_map ResponseSlot.headers hrecord
  have hreplaces : Replaces c.toCrates ser single =
      fun (slot : ResponseSlot S) call => SetsFirst c.toCrates ser single slot.headers call := by
    funext slot call
    exact propext (replaces_iff slot single call)
  rw [hasLastType_iff, hreplaces]
  apply and_congr_left
  intro _
  exact hrun

/-- A second type is ignored by `get`, and both are sent. -/
theorem second_type_ignored :
    ¬ ∀ (F : F64) (S : Type) (c : TypeCrate) (ser : Serializer F) (single : String → Prop)
      (calls : List (SetCall F)),
      Along (step c.toCrates ser) (Replaces c.toCrates ser single) (.new : ResponseSlot S) calls ∧
        HasLastType c.toCrates ser S calls := by
  intro h
  have hget := ((h sampleF64 Unit asciiTypes ⟨fun _ => .ok [], fun _ => .ok []⟩ (fun _ => True)
    [.text "Not Found", .html "<h1>Not Found</h1>"]).1.2 _ rfl).1 "Content-Type" trivial
      ContentTypes.html (by decide +kernel)
  exact absurd hget (by decide +kernel)

end SetCall

end Hypern.Http
