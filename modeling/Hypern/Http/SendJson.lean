import Hypern.Http.SetHeaders
import Hypern.Python.Structural

/-! Lists and dictionaries as the bodies of responses. -/

namespace Hypern.Http

open Lib Python ResponseSlot

variable {F : F64} {S : Type}

/-- `simd_json::to_vec` writes every value, and an array as brackets around its items with commas
between them. -/
structure Writer (F : F64) extends Serializer F where
  writes : ∀ v, ∃ bytes, toVec v = .ok bytes
  length_lt : ∀ {items bytes}, toVec (.array items) = .ok bytes → items.length < bytes.length

def Container (v : PyValue F) : Prop := (∃ items, v = .list items) ∨ ∃ entries, v = .dict entries

/-- `send` gives the response the JSON form of a value for its body, and `application/json` for
its type. -/
def Sends (c : Crates) (w : Writer F) (slot : ResponseSlot S) (v : PyValue F) : Prop :=
  ∃ j bytes slot', (pyToJsonValue w.str v = .ok j ∧ Image v j) ∧ w.toVec j = .ok bytes ∧
    PyResponse.send c w.toSerializer slot v = (.ok (), slot') ∧ slot'.body = .buffered bytes ∧
    named c "Content-Type" slot'.headers ≠ [] ∧
    ∀ t ∈ named c "Content-Type" slot'.headers, t = ContentTypes.json

section

variable {c : Crates} {w : Writer F} {slot : ResponseSlot S} {v : PyValue F}

theorem send_container (h : Container v) : PyResponse.send c w.toSerializer slot v =
    match extractVec v with
    | some bytes =>
      (.ok (), ((PyResponse.defaultType c slot ContentTypes.octetStream).setBody bytes).markReady)
    | none => PyResponse.json w.toSerializer slot v := by
  unfold PyResponse.send PyResponse.json
  rcases h with ⟨items, rfl⟩ | ⟨entries, rfl⟩ <;> rfl

theorem json_of_ok {j : JsonValue F} {bytes : List UInt8} (hj : pyToJsonValue w.str v = .ok j)
    (hbytes : w.toVec j = .ok bytes) : PyResponse.json w.toSerializer slot v =
      (.ok (), ((slot.addHeader "Content-Type" ContentTypes.json).setBody bytes).markReady) := by
  have hserialized : serializePyToJson w.toSerializer v = .ok bytes := by
    unfold serializePyToJson
    rw [hj]
    show (w.toVec j).mapError _ = _
    rw [hbytes]
    rfl
  unfold PyResponse.json
  rw [hserialized]

/-- The bytes of a list of octets are fewer than those of its JSON form. -/
theorem octets_ne_text {bytes octets : List UInt8} {j : JsonValue F} (h : Container v)
    (hoctets : extractVec v = some octets) (himage : Image v j) (hbytes : w.toVec j = .ok bytes) :
    octets ≠ bytes := by
  rintro rfl
  rcases h with ⟨items, rfl⟩ | ⟨entries, rfl⟩
  · have hlength := (forall₂_of_mapM_some hoctets).length_eq
    cases himage with
    | list heq _ =>
      have hlt := w.length_lt hbytes
      omega
  · cases hoctets

/-- What `send` does with a list or a dictionary: one that can be read as bytes is sent as bytes,
and a type that was set before stays. -/
theorem sends_iff (hdata : Data v) (h : Container v) : Sends c w slot v ↔
    Clean v ∧ extractVec v = none ∧
      ∀ t ∈ named c "Content-Type" slot.headers, t = ContentTypes.json := by
  rw [← faithful_iff w.str hdata]
  constructor
  · rintro ⟨j, bytes, slot', ⟨hj, himage⟩, hbytes, hsend, hbody, -, htypes⟩
    rw [send_container h] at hsend
    cases hvec : extractVec v with
    | some octets =>
      rw [hvec] at hsend
      cases hsend
      exact absurd (BodyKind.buffered.inj hbody) (octets_ne_text h hvec himage hbytes)
    | none =>
      rw [hvec] at hsend
      dsimp only at hsend
      rw [json_of_ok hj hbytes] at hsend
      cases hsend
      refine ⟨⟨j, hj, himage⟩, rfl, fun t ht => htypes t ?_⟩
      exact named_addHeader_self.symm ▸ List.mem_append_left _ ht
  · rintro ⟨⟨j, hj, himage⟩, hvec, htypes⟩
    obtain ⟨bytes, hbytes⟩ := w.writes j
    refine ⟨j, bytes, ((slot.addHeader "Content-Type" ContentTypes.json).setBody bytes).markReady,
      ⟨hj, himage⟩, hbytes, ?_, rfl, ?_, ?_⟩
    · rw [send_container h, hvec]
      exact json_of_ok hj hbytes
    · show named c "Content-Type" (slot.addHeader "Content-Type" ContentTypes.json).headers ≠ []
      rw [named_addHeader_self]
      exact List.append_ne_nil_of_right_ne_nil _ (List.cons_ne_nil _ _)
    · show ∀ t ∈ named c "Content-Type" (slot.addHeader "Content-Type" ContentTypes.json).headers, _
      rw [named_addHeader_self, List.forall_mem_append, List.forall_mem_singleton]
      exact ⟨htypes, rfl⟩

end

/-- Values are written as their JSON forms but for tuples and lists that can be read as bytes. -/
theorem structural_iff (c : Crates) (w : Writer F) {v : PyValue F} (h : Data v) :
    (Faithful w.str v ↔ Clean v) ∧
      (Container v → ∀ slot : ResponseSlot S, Sends c w slot v ↔
        Clean v ∧ extractVec v = none ∧
          ∀ t ∈ named c "Content-Type" slot.headers, t = ContentTypes.json) :=
  ⟨faithful_iff w.str h, fun hcontainer _ => sends_iff h hcontainer⟩

/-! ## A writer -/

def numberText (float : F.Carrier → String) : JsonNumber F → String
  | .posInt n _ => toString n
  | .negInt i _ => toString i
  | .float f _ => float f

/-- Only quotes and backslashes are escaped. -/
def quotedText (s : String) : String :=
  "\"" ++ String.ofList (s.toList.flatMap fun ch => if ch = '"' ∨ ch = '\\' then ['\\', ch] else [ch])
    ++ "\""

def compact (float : F.Carrier → String) : JsonValue F → List UInt8
  | .null => utf8 "null"
  | .bool b => utf8 (if b then "true" else "false")
  | .number n => utf8 (numberText float n)
  | .string s => utf8 (quotedText s)
  | .array items =>
    utf8 "[" ++ (utf8 ",").intercalate (items.map (compact float)) ++ utf8 "]"
  | .object entries =>
    utf8 "\x7b" ++ (utf8 ",").intercalate (entries.map fun e =>
      utf8 (quotedText e.1) ++ utf8 ":" ++ compact float e.2) ++ utf8 "\x7d"
decreasing_by
  · exact Nat.lt_of_lt_of_le (List.sizeOf_lt_of_mem (by assumption)) (by simp)
  · exact Nat.lt_of_lt_of_le (sizeOf_snd_lt (by assumption)) (by simp)

theorem length_le_intercalate (separator : UInt8) (texts : List (List UInt8)) :
    texts.length ≤ ([separator].intercalate texts).length + 1 := by
  induction texts with
  | nil => exact Nat.zero_le _
  | cons text texts ih =>
    cases texts with
    | nil => exact Nat.le_add_left 1 _
    | cons text' texts =>
      simp only [List.intercalate_cons_cons, List.length_append, List.length_cons,
        List.length_nil] at ih ⊢
      omega

def compactWriter (float : F.Carrier → String) : Writer F where
  str _ := .error (runtimeError "no text")
  toVec v := .ok (compact float v)
  writes v := ⟨_, rfl⟩
  length_lt := by
    intro items bytes h
    cases h
    have hbrackets : (utf8 "[").length = 1 ∧ (utf8 "]").length = 1 := by decide +kernel
    have hcomma : utf8 "," = [44] := by decide +kernel
    have hitems := length_le_intercalate 44 (items.map (compact float))
    rw [List.length_map] at hitems
    rw [compact, hcomma, List.length_append, List.length_append]
    omega

def integerWriter : Writer sampleF64 := compactWriter fun f => toString (f.getD 0) ++ ".0"

/-- `[1, (None, "a")]` -/
def mixedList : PyValue sampleF64 := .list [.int 1, .sequence [.none, .str (.ofString "a")]]

theorem mixedList_sent :
    Faithful integerWriter.str mixedList ∧
      Sends asciiCase integerWriter (.new : ResponseSlot Unit) mixedList := by
  have hdata : Data mixedList := by
    refine .list ?_
    rw [List.forall_mem_cons, List.forall_mem_singleton]
    refine ⟨.int (by decide), .tuple ?_⟩
    rw [List.forall_mem_cons, List.forall_mem_singleton]
    exact ⟨.none, .str _⟩
  have hclean : Clean mixedList := by
    refine .list ?_
    rw [List.forall_mem_cons, List.forall_mem_singleton]
    refine ⟨.int 1, .tuple ⟨.none, List.mem_cons_self, rfl⟩ ?_⟩
    rw [List.forall_mem_cons, List.forall_mem_singleton]
    exact ⟨.none, .str "a"⟩
  obtain ⟨hfaithful, hsends⟩ := structural_iff (S := Unit) asciiCase integerWriter hdata
  refine ⟨hfaithful.mpr hclean, (hsends (.inl ⟨_, rfl⟩) .new).mpr ⟨hclean, rfl, ?_⟩⟩
  exact List.forall_mem_nil _

/-- The tuple `(1, 2)` becomes a string, and the list `[72, 105]` is sent as the text `Hi`. -/
theorem octets_misread :
    ¬ (∀ v : PyValue sampleF64, Data v → Faithful integerWriter.str v) ∧
      ¬ ∀ v : PyValue sampleF64, Data v → Container v →
        Sends asciiCase integerWriter (.new : ResponseSlot Unit) v := by
  constructor
  · intro h
    obtain ⟨j, hj, himage⟩ := h (.sequence [.int 1, .int 2]) (.tuple (by
      rw [List.forall_mem_cons, List.forall_mem_singleton]
      exact ⟨.int (by decide), .int (by decide)⟩))
    rw [pyToJsonValue_sequence] at hj
    cases hj
    cases himage
  · intro h
    have hdata : Data (.list [.int 72, .int 105] : PyValue sampleF64) := by
      refine .list ?_
      rw [List.forall_mem_cons, List.forall_mem_singleton]
      exact ⟨.int (by decide), .int (by decide)⟩
    have hsends := h _ hdata (.inl ⟨_, rfl⟩)
    have hvec := ((sends_iff hdata (.inl ⟨_, rfl⟩)).mp hsends).2.1
    cases hvec

end Hypern.Http
