import Hypern.Http.ResponseSlot

/-! The framing of a response: however the header fields and the body were written, the one field
that tells the length of the body is made from the body itself. -/

namespace Hypern.Http

open Lib ResponseSlot

variable {S : Type}

/-! ## Runs -/

inductive SlotOp (S : Type)
  | setStatus (status : Nat)
  | setHeaders (headers : List (String × String))
  | addHeader (key value : String)
  | removeHeader (key : String)
  | setBody (body : List UInt8)
  | setBodyStr (body : String)
  | appendBody (data : List UInt8)
  | setStreamingBody (receiver : S)
  | markReady

namespace SlotOp

def perform (c : Crates) (slot : ResponseSlot S) : SlotOp S → ResponseSlot S
  | .setStatus status => slot.setStatus status
  | .setHeaders headers => slot.setHeaders headers
  | .addHeader key value => slot.addHeader key value
  | .removeHeader key => slot.removeHeader c key
  | .setBody body => slot.setBody body
  | .setBodyStr body => slot.setBodyStr body
  | .appendBody data => slot.appendBody data
  | .setStreamingBody receiver => slot.setStreamingBody receiver
  | .markReady => slot.markReady

/-- What the operation makes of the body. -/
def bodyAfter (body : BodyKind S) : SlotOp S → BodyKind S
  | .setBody data => .buffered data
  | .setBodyStr text => .buffered (utf8 text)
  | .appendBody data =>
    match body with
    | .buffered buf => .buffered (buf ++ data)
    | .streaming receiver => .streaming receiver
  | .setStreamingBody receiver => .streaming receiver
  | _ => body

theorem body_perform (c : Crates) (slot : ResponseSlot S) (op : SlotOp S) :
    (op.perform c slot).body = op.bodyAfter slot.body := by
  cases op with
  | appendBody data =>
    show (slot.appendBody data).body = _
    unfold ResponseSlot.appendBody
    cases h : slot.body <;> simp [bodyAfter, h]
  | _ => rfl

end SlotOp

/-- The body that the operations leave, whatever they do to the header fields. -/
def currentBody (ops : List (SlotOp S)) : BodyKind S := ops.foldl SlotOp.bodyAfter (.buffered [])

theorem body_run (c : Crates) (ops : List (SlotOp S)) :
    (ops.foldl (SlotOp.perform c) .new).body = currentBody ops := by
  have hfold : ∀ slot : ResponseSlot S,
      (ops.foldl (SlotOp.perform c) slot).body = ops.foldl SlotOp.bodyAfter slot.body := by
    induction ops with
    | nil => exact fun _ => rfl
    | cons op ops ih =>
      intro slot
      rw [List.foldl_cons, List.foldl_cons, ih, SlotOp.body_perform]
  exact hfold .new

/-! ## The response -/

/-- A buffered body has its length in the one `Content-Length`; a streamed one has no
`Content-Length` and is chunked. -/
def SentResponse.Framed (r : SentResponse S) : Prop :=
  match r.body with
  | .buffered data => r.headers.valuesOf "content-length" = [toString data.length]
  | .streaming _ =>
    r.headers.valuesOf "content-length" = [] ∧ r.headers.valuesOf "transfer-encoding" = ["chunked"]

/-- Whatever fields the slot holds. -/
theorem framed_intoResponse (h : HeaderCrate) (slot : ResponseSlot S) :
    (slot.intoResponse h.toCrates).1.Framed := by
  have hstart := normalized_served h slot
  unfold SentResponse.Framed intoResponse
  dsimp only
  cases slot.body with
  | buffered data =>
    show HeaderFields.valuesOf (HeaderFields.insert _ "content-length" _) "content-length" = _
    rw [HeaderFields.valuesOf_insert hstart asciiLowercase_contentLength, if_pos rfl]
  | streaming receiver =>
    have hchunked := normalized_chunked h slot
    have hne : ("transfer-encoding" : String) ≠ "content-length" := by decide
    constructor
    · rw [HeaderFields.valuesOf_remove hchunked, if_pos rfl]
    · rw [HeaderFields.valuesOf_remove hchunked, if_neg hne,
        HeaderFields.valuesOf_insert hstart asciiLowercase_transferEncoding, if_pos rfl]

/-- Every run of the slot ends in a response that carries the current body and is framed for it. -/
theorem response_framed (h : HeaderCrate) (ops : List (SlotOp S)) :
    let response := ((ops.foldl (SlotOp.perform h.toCrates) .new).intoResponse h.toCrates).1
    response.body = currentBody ops ∧ response.Framed :=
  ⟨body_run h.toCrates ops, framed_intoResponse h _⟩

/-- A stream that is replaced by a buffer, with lengths that the user has set by hand. -/
example : (([.addHeader "CONTENT-LENGTH" "7", .setStreamingBody (), .addHeader "content-length" "9",
      .setBodyStr "hello", .appendBody [33]].foldl (SlotOp.perform asciiHeaders.toCrates)
        .new).intoResponse asciiHeaders.toCrates).1.headers =
    [("server", "Hypern"), ("content-length", "6")] := by
  decide +kernel

end Hypern.Http
