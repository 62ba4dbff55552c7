import Hypern.Http.Request

/-! `ResponseSlot` of `response.rs`: the status, the header fields and the body that handlers and
middleware write, and the response that is made of them. -/

namespace Hypern.Http

open Lib

/-- Rust's `to_ascii_lowercase`. -/
def asciiLowercase (s : String) : String := String.ofList (s.toList.map Char.toLower)

theorem toLower_of_not_upper {c : Char} (h : ¬ (c.val ≥ 'A'.val ∧ c.val ≤ 'Z'.val)) :
    c.toLower = c := dif_neg h

theorem toLower_idem (c : Char) : c.toLower.toLower = c.toLower := by
  by_cases h : c.val ≥ 'A'.val ∧ c.val ≤ 'Z'.val
  · have hlower : c.toLower.val = c.val + ('a'.val - 'A'.val) := by
      unfold Char.toLower
      rw [dif_pos h]
    apply toLower_of_not_upper
    have hadd : (c.val + ('a'.val - 'A'.val)).toNat = (c.val.toNat + 32) % 2 ^ 32 :=
      UInt32.toNat_add ..
    have hA : 'A'.val.toNat = 65 := rfl
    have hZ : 'Z'.val.toNat = 90 := rfl
    simp only [hlower, ge_iff_le, UInt32.le_iff_toNat_le] at h ⊢
    omega
  · rw [toLower_of_not_upper h, toLower_of_not_upper h]

theorem asciiLowercase_idem (s : String) :
    asciiLowercase (asciiLowercase s) = asciiLowercase s := by
  unfold asciiLowercase
  rw [String.toList_ofList, List.map_map]
  apply congrArg String.ofList
  apply List.map_congr_left
  intro c _
  exact toLower_idem c

theorem asciiLowercase_server : asciiLowercase "server" = "server" := by decide +kernel

theorem asciiLowercase_contentLength : asciiLowercase "content-length" = "content-length" := by
  decide +kernel

theorem asciiLowercase_transferEncoding :
    asciiLowercase "transfer-encoding" = "transfer-encoding" := by
  decide +kernel

/-- The `http` crate writes the names of fields in lower case and leaves their values as they are. Its
limit on the number of fields in a `HeaderMap` is left out. -/
structure HeaderCrate extends Crates where
  headerName_lower : ∀ {key name}, headerName key = some name → asciiLowercase name = name
  headerValue_eq : ∀ {text value}, headerValue text = some value → value = text

def asciiHeaders : HeaderCrate where
  toCrates := { asciiCase with headerName := fun s => some (asciiLowercase s) }
  headerName_lower h := Option.some.inj h ▸ asciiLowercase_idem _
  headerValue_eq h := (Option.some.inj h).symm

/-! ## The slot -/

/-- `S` are the receivers of streamed bodies. -/
inductive BodyKind (S : Type)
  | buffered (data : List UInt8)
  | streaming (receiver : S)

structure ResponseSlot (S : Type) where
  status : Nat
  headers : List (String × String)
  body : BodyKind S
  ready : Bool
  sent : Bool
  isStreaming : Bool

namespace ResponseSlot

variable {S : Type}

def new : ResponseSlot S := ⟨200, [], .buffered [], false, false, false⟩

variable (slot : ResponseSlot S)

def setStatus (status : Nat) : ResponseSlot S := { slot with status }

def setHeaders (headers : List (String × String)) : ResponseSlot S := { slot with headers }

def addHeader (key value : String) : ResponseSlot S :=
  { slot with headers := slot.headers ++ [(key, value)] }

/-- The values of the fields with this name, in any letter case. -/
def named (c : Crates) (key : String) (fields : List (String × String)) : List String :=
  fields.filterMap fun f => if c.toLowercase f.1 = c.toLowercase key then some f.2 else none

def getHeader (c : Crates) (key : String) : Option String :=
  (slot.headers.find? fun f => c.toLowercase f.1 = c.toLowercase key).map (·.2)

def removeHeader (c : Crates) (key : String) : ResponseSlot S :=
  { slot with headers := slot.headers.filter fun f => c.toLowercase f.1 ≠ c.toLowercase key }

def setBody (body : List UInt8) : ResponseSlot S := { slot with body := .buffered body }

def setBodyStr (body : String) : ResponseSlot S := { slot with body := .buffered (utf8 body) }

def appendBody (data : List UInt8) : ResponseSlot S :=
  match slot.body with
  | .buffered buf => { slot with body := .buffered (buf ++ data) }
  | .streaming _ => slot

def setStreamingBody (receiver : S) : ResponseSlot S :=
  { slot with body := .streaming receiver, isStreaming := true }

def markReady : ResponseSlot S := { slot with ready := true }

theorem getHeader_eq (c : Crates) (key : String) :
    slot.getHeader c key = (named c key slot.headers).head? := by
  unfold getHeader named
  induction slot.headers with
  | nil => rfl
  | cons f fields ih =>
    by_cases h : c.toLowercase f.1 = c.toLowercase key
    · simp [h]
    · simpa [h] using ih

variable {slot} {c : Crates} {key value : String}

theorem named_addHeader_self :
    named c key (slot.addHeader key value).headers = named c key slot.headers ++ [value] := by
  unfold named addHeader
  simp

end ResponseSlot

/-! ## The response -/

/-- Header fields with normalized names, as the `http` crate keeps them. -/
abbrev HeaderFields := List (String × String)

namespace HeaderFields

/-- `HeaderMap::insert`, which replaces all values of the name. -/
def insert (fields : HeaderFields) (name value : String) : HeaderFields :=
  fields.filter (·.1 ≠ name) ++ [(name, value)]

def remove (fields : HeaderFields) (name : String) : HeaderFields := fields.filter (·.1 ≠ name)

/-- `entry(name).or_insert(value)` -/
def orInsert (fields : HeaderFields) (name value : String) : HeaderFields :=
  if fields.any (·.1 = name) then fields else fields ++ [(name, value)]

/-- The values of a field in any letter case. -/
def valuesOf (fields : HeaderFields) (name : String) : List String :=
  (fields.filter fun f => asciiLowercase f.1 = name).map Prod.snd

def Normalized (fields : HeaderFields) : Prop := ∀ f ∈ fields, asciiLowercase f.1 = f.1

variable {fields : HeaderFields} {name value other : String}

theorem Normalized.insert (h : fields.Normalized) (hname : asciiLowercase name = name) :
    (fields.insert name value).Normalized := by
  intro f hf
  rcases List.mem_append.mp hf with hold | hnew
  · exact h f (List.mem_of_mem_filter hold)
  · rw [List.mem_singleton.mp hnew]
    exact hname

theorem Normalized.orInsert (h : fields.Normalized) (hname : asciiLowercase name = name) :
    (fields.orInsert name value).Normalized := by
  unfold HeaderFields.orInsert
  split_ifs
  · exact h
  · intro f hf
    rcases List.mem_append.mp hf with hold | hnew
    · exact h f hold
    · rw [List.mem_singleton.mp hnew]
      exact hname

theorem valuesOf_append (fields fields' : HeaderFields) (name : String) :
    valuesOf (fields ++ fields') name = valuesOf fields name ++ valuesOf fields' name := by
  unfold valuesOf
  rw [List.filter_append, List.map_append]

theorem valuesOf_remove (h : fields.Normalized) (name other : String) :
    valuesOf (fields.remove name) other = if other = name then [] else valuesOf fields other := by
  unfold valuesOf remove
  rw [List.filter_filter]
  have hsame : ∀ f ∈ fields, (decide (asciiLowercase f.1 = other) && decide (f.1 ≠ name)) =
      if other = name then false else decide (asciiLowercase f.1 = other) := by
    intro f hf
    rw [h f hf]
    by_cases hother : other = name
    · by_cases hf' : f.1 = other <;> simp [hother, hf']
    · by_cases hf' : f.1 = other <;> simp [hother, hf']
  rw [List.filter_congr hsame]
  split_ifs <;> simp

theorem valuesOf_insert (h : fields.Normalized) (hname : asciiLowercase name = name) :
    valuesOf (fields.insert name value) other =
      if other = name then [value] else valuesOf fields other := by
  have hremove := valuesOf_remove h name other
  unfold HeaderFields.insert
  rw [valuesOf_append]
  unfold remove at hremove
  rw [hremove]
  by_cases hother : other = name
  · subst hother
    simp [valuesOf, hname]
  · simp [valuesOf, hname, hother, Ne.symm hother]

end HeaderFields

/-- The response that is sent. -/
structure SentResponse (S : Type) where
  status : Nat
  headers : HeaderFields
  body : BodyKind S

namespace ResponseSlot

variable {S : Type}

/-- The fields that are valid, appended one after another. -/
def appended (c : Crates) (slot : ResponseSlot S) : HeaderFields :=
  slot.headers.filterMap fun f => do
    let name ← c.headerName f.1
    let value ← c.headerValue f.2
    return (name, value)

/-- The response takes the body out of the slot. -/
def intoResponse (c : Crates) (slot : ResponseSlot S) : SentResponse S × ResponseSlot S :=
  let headers := (appended c slot).orInsert "server" "Hypern"
  let headers := match slot.body with
    | .buffered data => headers.insert "content-length" (toString data.length)
    | .streaming _ => (headers.insert "transfer-encoding" "chunked").remove "content-length"
  ({ status := if 100 ≤ slot.status ∧ slot.status < 1000 then slot.status else 200
     headers
     body := slot.body },
    { slot with body := .buffered [] })

theorem normalized_appended (h : HeaderCrate) (slot : ResponseSlot S) :
    (appended h.toCrates slot).Normalized := by
  intro f hf
  obtain ⟨field, -, hfield⟩ := List.mem_filterMap.mp hf
  obtain ⟨name, hname, hfield⟩ := Option.bind_eq_some_iff.mp hfield
  obtain ⟨value, -, hfield⟩ := Option.bind_eq_some_iff.mp hfield
  rw [← Option.some.inj hfield]
  exact h.headerName_lower hname

theorem normalized_served (h : HeaderCrate) (slot : ResponseSlot S) :
    ((appended h.toCrates slot).orInsert "server" "Hypern").Normalized :=
  (normalized_appended h slot).orInsert asciiLowercase_server

theorem normalized_chunked (h : HeaderCrate) (slot : ResponseSlot S) :
    (((appended h.toCrates slot).orInsert "server" "Hypern").insert
      "transfer-encoding" "chunked").Normalized :=
  (normalized_served h slot).insert asciiLowercase_transferEncoding

end ResponseSlot

end Hypern.Http
