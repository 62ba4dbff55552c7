import Hypern.Http.Sse
import Hypern.Lib.Fallible
import Hypern.Lib.Search
import Hypern.Lib.Utf8RoundTrip
import Hypern.Python.Object

/-! What `sse_collect` and `sse_stream` make of the items of a generator. -/

namespace Hypern.Http

open Lib Python

/-! ## Items -/

/-- A Python value as the extractions to `String` and to `u64` see it. -/
structure Extracted where
  string : Except PyExc String
  u64 : Except PyExc Nat

/-- `get_item` of a dictionary, which may raise. -/
abbrev GetItem := String → Except PyExc (Option Extracted)

/-- An object that is neither an event nor a dictionary: its text if it is a string with one, its
attributes (`none` where reading one raises) and its `str()`. -/
structure SseObject where
  text : Option String
  attr : String → Option Extracted
  str : Except PyExc String

inductive SseItem
  | event (e : SSEEvent)
  | dict (get : GetItem)
  | object (o : SseObject)

namespace GetItem

variable (get : GetItem)

/-- `get_item(key)?.map(extract::<String>).transpose()?` -/
def getString (key : String) : Except PyExc (Option String) := do
  match ← get key with
  | some value => some <$> value.string
  | none => return none

def getU64 (key : String) : Except PyExc (Option Nat) := do
  match ← get key with
  | some value => some <$> value.u64
  | none => return none

def toEvent : Except PyExc SSEEvent := do
  let data ← getString get "data"
  let event ← getString get "event"
  let id ← getString get "id"
  let retry ← getU64 get "retry"
  return ⟨id, event, data.getD "", retry⟩

end GetItem

namespace SseObject

variable (o : SseObject)

/-- `getattr(name).ok()` as a text; `None` and values of other types are left out. -/
def optionalText (name : String) : Option String := (o.attr name).bind (·.string.toOption)

def optionalU64 (name : String) : Option Nat := (o.attr name).bind (·.u64.toOption)

/-- The branches of `collect_sse_from_generator` from the one for strings on. -/
def collect : Except PyExc SSEEvent :=
  match o.text with
  | some s => .ok (.ofData s)
  | none =>
    match o.attr "data" with
    | some data => do
      let data ← data.string
      return ⟨o.optionalText "id", o.optionalText "event", data, o.optionalU64 "retry"⟩
    | none => .ofData <$> o.str

/-- Those of `sse_stream`. -/
def stream : Except PyExc SSEEvent :=
  match o.text with
  | some s => .ok (.ofData s)
  | none => .ofData <$> o.str

end SseObject

namespace SseItem

/-- The dispatch of `collect_sse_from_generator`. -/
def collect : SseItem → Except PyExc SSEEvent
  | .event e => .ok e
  | .dict get => get.toEvent
  | .object o => o.collect

/-- The dispatch of `sse_stream`; it asks for a string before it asks for a dictionary, and no
object is both. -/
def stream : SseItem → Except PyExc SSEEvent
  | .event e => .ok e
  | .dict get => get.toEvent
  | .object o => o.stream

end SseItem

/-- An iterator yields items until it is exhausted or raises. -/
abbrev SseItems := List (Except PyExc SseItem)

def formatItems (toEvent : SseItem → Except PyExc SSEEvent) (items : SseItems) :
    Except PyExc (List (List UInt8)) :=
  items.mapM fun item => do return (← toEvent (← item)).toBytes

/-- The thread of a call: whether it has entered a Tokio runtime, and whether a panic unwinds to the
caller, which a release build aborts for. -/
structure CallThread where
  entered : Bool
  unwinds : Bool

/-- Handlers run on plain threads, started by `thread::spawn`. -/
def handlerThread (unwinds : Bool) : CallThread := ⟨false, unwinds⟩

inductive SseAnswer
  | body (bytes : List UInt8)
  | raised (exc : PyExc)
  | aborted

/-- The exception that a panic is in Python; it is no `Exception`. -/
def panicException (message : String) : PyExc :=
  ⟨["PanicException", "BaseException", "object"], message⟩

/-- `sse_collect`, with the body that it sets. -/
def sseCollect (items : SseItems) : SseAnswer :=
  match formatItems SseItem.collect items with
  | .ok events => .body events.flatten
  | .error exc => .raised exc

/-- `sse_stream`, with the chunks that its task sends put together. The items are formatted first,
and then `tokio::spawn` panics outside of a runtime. -/
def sseStream (thread : CallThread) (items : SseItems) : SseAnswer :=
  match formatItems SseItem.stream items with
  | .ok events =>
    if thread.entered then .body events.flatten
    else if thread.unwinds then
      .raised (panicException
        "there is no reactor running, must be called from the context of a Tokio 1.x runtime")
    else .aborted
  | .error exc => .raised exc

/-- The same body, or both raise. -/
def BothAgree (thread : CallThread) (items : SseItems) : Prop :=
  match sseCollect items, sseStream thread items with
  | .body bytes, .body bytes' => bytes = bytes'
  | .raised _, .raised _ => True
  | _, _ => False

/-! ## Which sequences are treated alike -/

/-- Every field of the dictionary can be read and has the right type. -/
def GetItem.readable (get : GetItem) : Bool :=
  (get.getString "data").isOk && (get.getString "event").isOk && (get.getString "id").isOk &&
    (get.getU64 "retry").isOk

namespace SseObject

/-- An object with text in `data` shows the same lines in its `str()`, and carries no other
field. -/
def Alike (o : SseObject) : Prop :=
  o.text = none → ∀ data, o.attr "data" = some data →
    ∃ s t, data.string = .ok s ∧ o.str = .ok t ∧ lines s.toList = lines t.toList ∧
      o.optionalText "id" = none ∧ o.optionalText "event" = none ∧ o.optionalU64 "retry" = none

/-- It is a string, or has text in `data`, or no `data` but a `str()`. -/
def collectible (o : SseObject) : Bool :=
  o.text.isSome || match o.attr "data" with
    | some data => data.string.isOk
    | none => o.str.isOk

def streamable (o : SseObject) : Bool := o.text.isSome || o.str.isOk

end SseObject

namespace SseItem

def Alike : SseItem → Prop
  | .object o => o.Alike
  | _ => True

def collectible : SseItem → Bool
  | .event _ => true
  | .dict get => get.readable
  | .object o => o.collectible

def streamable : SseItem → Bool
  | .event _ => true
  | .dict get => get.readable
  | .object o => o.streamable

end SseItem

/-- The generator does not raise, and every item can be made an event. -/
def Formats (item : Except PyExc SseItem) (able : SseItem → Bool) : Prop :=
  ∃ i, item = .ok i ∧ able i = true

/-! ## Texts of events -/

variable {e e' : SSEEvent} {o : SseObject} {items : SseItems}

/-- A line with its end has the line feed, if it has one, last. -/
theorem splitLines_spec (text : List Char) :
    ∀ line ∈ splitLines text, ∃ a, '\n' ∉ a ∧ (line = a ∨ line = a ++ ['\n']) := by
  fun_induction splitLines text with
  | case1 => exact nofun
  | case2 cs ih =>
    exact List.forall_mem_cons.mpr ⟨⟨[], List.not_mem_nil, .inr rfl⟩, ih⟩
  | case3 c cs hc _ _ =>
    exact List.forall_mem_singleton.mpr ⟨[c], by simpa using Ne.symm hc, .inl rfl⟩
  | case4 c cs hc line rest hlines ih =>
    rw [hlines, List.forall_mem_cons] at ih
    obtain ⟨⟨a, ha, hline⟩, hrest⟩ := ih
    refine List.forall_mem_cons.mpr ⟨⟨c :: a, List.not_mem_cons_of_ne_of_not_mem (Ne.symm hc) ha, ?_⟩,
      hrest⟩
    exact hline.imp (congrArg _) (congrArg _)

theorem feed_notMem_lines (text : List Char) : ∀ line ∈ lines text, '\n' ∉ line := by
  intro line hline
  obtain ⟨piece, hpiece, rfl⟩ := List.mem_map.mp hline
  obtain ⟨a, ha, rfl | rfl⟩ := splitLines_spec text piece hpiece
  · unfold stripLineEnd
    rw [if_neg fun hlast => ha (List.mem_of_getLast? hlast)]
    exact ha
  · unfold stripLineEnd
    rw [if_pos List.getLast?_concat, List.dropLast_concat]
    dsimp only
    split_ifs
    · exact fun hmem => ha (List.dropLast_subset _ hmem)
    · exact ha

/-- The lines of an event without other fields end at its empty line. -/
theorem dataLines_inj {ls ls' : List (List Char)} (h : ∀ l ∈ ls, '\n' ∉ l)
    (h' : ∀ l ∈ ls', '\n' ∉ l) {rest rest' : List Char}
    (heq : ls.flatMap (SSEEvent.fieldLine "data") ++ '\n' :: rest =
      ls'.flatMap (SSEEvent.fieldLine "data") ++ '\n' :: rest') : ls = ls' ∧ rest = rest' := by
  induction ls generalizing ls' with
  | nil =>
    cases ls' with
    | nil => exact ⟨rfl, (List.cons.inj heq).2⟩
    | cons l' ls' => exact absurd (List.cons.inj heq).1 (by decide)
  | cons l ls ih =>
    cases ls' with
    | nil => exact absurd (List.cons.inj heq).1 (by decide)
    | cons l' ls' =>
      obtain ⟨hl, hls⟩ := List.forall_mem_cons.mp h
      obtain ⟨hl', hls'⟩ := List.forall_mem_cons.mp h'
      simp only [List.flatMap_cons, SSEEvent.fieldLine, List.append_assoc, List.cons_append,
        List.append_cancel_left_eq, List.cons.injEq, true_and, List.nil_append] at heq
      obtain ⟨rfl, hrest⟩ := eq_of_append_eq hl hl' (.inr rfl) (.inr rfl) heq
      obtain ⟨rfl, rfl⟩ := ih hls hls' (List.cons.inj hrest).2
      exact ⟨rfl, rfl⟩

theorem format_ofData (s : String) : (SSEEvent.ofData s).format.toList =
    (lines s.toList).flatMap (SSEEvent.fieldLine "data") ++ ['\n'] := by
  unfold SSEEvent.format
  rw [String.toList_ofList]
  rfl

/-- A text that starts with data, or is at its end, has no line of another field in front. -/
theorem eq_none_of_head {name : String} {c : Char} {value : Option String} {rest : List Char}
    (hname : name.toList.head? = some c) (hdata : c ≠ 'd') (hend : c ≠ '\n')
    (h : (SSEEvent.optionalLine name value ++ rest).head? = some 'd' ∨
      (SSEEvent.optionalLine name value ++ rest).head? = some '\n') : value = none := by
  cases value with
  | none => rfl
  | some value =>
    have hline : (SSEEvent.optionalLine name (some value) ++ rest).head? = some c := by
      rw [SSEEvent.optionalLine, SSEEvent.fieldLine]
      simp only [List.append_assoc, List.head?_append, hname, Option.some_or]
    rw [hline, Option.some.injEq, Option.some.injEq] at h
    exact absurd h (not_or.mpr ⟨hdata, hend⟩)

/-- An event with another field does not start like one that has only data. -/
theorem format_eq_ofData {s : String} {rest rest' : List Char}
    (h : e.format.toList ++ rest = (SSEEvent.ofData s).format.toList ++ rest') :
    (lines e.data.toList = lines s.toList ∧ e.id = none ∧ e.event = none ∧ e.retry = none) ∧
      rest = rest' := by
  have hhead : (e.format.toList ++ rest).head? = some 'd' ∨
      (e.format.toList ++ rest).head? = some '\n' := by
    rw [h, format_ofData]
    cases lines s.toList with
    | nil => exact .inr rfl
    | cons line ls => exact .inl rfl
  unfold SSEEvent.format at hhead
  rw [String.toList_ofList] at hhead
  simp only [List.append_assoc] at hhead
  have hid : e.id = none := eq_none_of_head rfl (by decide) (by decide) hhead
  rw [hid] at hhead
  have hevent : e.event = none := eq_none_of_head rfl (by decide) (by decide) hhead
  rw [hevent] at hhead
  have hretry : e.retry = none :=
    Option.map_eq_none_iff.mp (eq_none_of_head rfl (by decide) (by decide) hhead)
  have hdata : e.format.toList = (SSEEvent.ofData e.data).format.toList := by
    unfold SSEEvent.format
    rw [hid, hevent, hretry]
    rfl
  rw [hdata, format_ofData, format_ofData, List.append_assoc, List.append_assoc] at h
  obtain ⟨hlines, hrest⟩ := dataLines_inj (feed_notMem_lines _) (feed_notMem_lines _) h
  exact ⟨⟨hlines, hid, hevent, hretry⟩, hrest⟩

/-! ## One item -/

theorem SseObject.alike_of_append {rest rest' : List Char} (hcollect : o.collect = .ok e)
    (hstream : o.stream = .ok e')
    (h : e.format.toList ++ rest = e'.format.toList ++ rest') : o.Alike ∧ rest = rest' := by
  unfold collect at hcollect
  unfold stream at hstream
  unfold Alike
  cases htext : o.text with
  | some s =>
    rw [htext] at hcollect hstream
    cases hcollect
    cases hstream
    exact ⟨nofun, List.append_cancel_left h⟩
  | none =>
    rw [htext] at hcollect hstream
    dsimp only at hcollect hstream
    cases hdata : o.attr "data" with
    | none =>
      rw [hdata] at hcollect
      cases hcollect.symm.trans hstream
      exact ⟨fun _ => nofun, List.append_cancel_left h⟩
    -- the one branch in which the two dispatches part
    | some data =>
      rw [hdata] at hcollect
      dsimp only at hcollect
      cases hstring : data.string with
      | error x =>
        rw [hstring] at hcollect
        cases hcollect
      | ok s =>
        cases hstr : o.str with
        | error x =>
          rw [hstr] at hstream
          cases hstream
        | ok t =>
          rw [hstring] at hcollect
          rw [hstr] at hstream
          cases hcollect
          cases hstream
          obtain ⟨⟨hlines, hid, hevent, hretry⟩, hrest⟩ := format_eq_ofData h
          refine ⟨fun _ data' hdata' => ?_, hrest⟩
          obtain rfl := Option.some.inj hdata'
          exact ⟨s, t, hstring, rfl, hlines, hid, hevent, hretry⟩

theorem SseObject.Alike.format_eq (h : o.Alike) :
    SSEEvent.format <$> o.collect = SSEEvent.format <$> o.stream := by
  unfold collect stream
  cases htext : o.text with
  | some s => rfl
  | none =>
    cases hdata : o.attr "data" with
    | none => rfl
    | some data =>
      obtain ⟨s, t, hstring, hstr, hlines, hid, hevent, hretry⟩ := h htext data hdata
      dsimp only
      rw [hstring, hstr, hid, hevent, hretry]
      refine congrArg Except.ok (String.toList_inj.mp ?_)
      have hs := format_ofData s
      rw [hlines, ← format_ofData t] at hs
      exact hs

theorem SseObject.collect_isOk (o : SseObject) : o.collect.isOk = o.collectible := by
  unfold collect collectible
  cases o.text with
  | some s => rfl
  | none =>
    cases o.attr "data" with
    | none => cases o.str <;> rfl
    | some data => cases hstring : data.string <;> simp [hstring] <;> rfl

theorem SseObject.stream_isOk (o : SseObject) : o.stream.isOk = o.streamable := by
  unfold stream streamable
  cases o.text with
  | some s => rfl
  | none => cases o.str <;> rfl

theorem GetItem.toEvent_isOk (get : GetItem) : get.toEvent.isOk = get.readable := by
  unfold toEvent readable
  cases getString get "data" with
  | error x => rfl
  | ok data =>
    cases getString get "event" with
    | error x => rfl
    | ok event =>
      cases getString get "id" with
      | error x => rfl
      | ok id => cases getU64 get "retry" <;> rfl

namespace SseItem

variable {i : SseItem}

theorem collect_isOk (i : SseItem) : i.collect.isOk = i.collectible := by
  cases i with
  | event e => rfl
  | dict get => exact get.toEvent_isOk
  | object o => exact o.collect_isOk

theorem stream_isOk (i : SseItem) : i.stream.isOk = i.streamable := by
  cases i with
  | event e => rfl
  | dict get => exact get.toEvent_isOk
  | object o => exact o.stream_isOk

theorem alike_of_append {rest rest' : List Char} (hcollect : i.collect = .ok e)
    (hstream : i.stream = .ok e') (h : e.format.toList ++ rest = e'.format.toList ++ rest') :
    i.Alike ∧ rest = rest' := by
  cases i with
  | event e₀ =>
    cases hcollect.symm.trans hstream
    exact ⟨trivial, List.append_cancel_left h⟩
  | dict get =>
    cases hcollect.symm.trans hstream
    exact ⟨trivial, List.append_cancel_left h⟩
  | object o => exact o.alike_of_append hcollect hstream h

theorem Alike.format_eq (h : i.Alike) :
    SSEEvent.format <$> i.collect = SSEEvent.format <$> i.stream := by
  cases i with
  | event e => rfl
  | dict get => rfl
  | object o => exact SseObject.Alike.format_eq h

end SseItem

/-! ## Sequences -/

/-- The events that the items of a sequence make. -/
def eventsOf (toEvent : SseItem → Except PyExc SSEEvent) (items : SseItems) :
    Except PyExc (List SSEEvent) :=
  items.mapM (· >>= toEvent)

def textOf (events : List SSEEvent) : List Char := events.flatMap fun e => e.format.toList

variable {toEvent : SseItem → Except PyExc SSEEvent}

theorem formatItems_eq (toEvent : SseItem → Except PyExc SSEEvent) (items : SseItems) :
    formatItems toEvent items = List.map SSEEvent.toBytes <$> eventsOf toEvent items := by
  unfold formatItems eventsOf
  induction items with
  | nil => rfl
  | cons item items ih =>
    rw [List.mapM_cons, List.mapM_cons, ih]
    cases item with
    | error x => rfl
    | ok i =>
      change ((toEvent i >>= fun e => pure e.toBytes) >>= _) = _ <$> (toEvent i >>= _)
      cases toEvent i with
      | error x => rfl
      | ok e => cases items.mapM (· >>= toEvent) <;> rfl

theorem flatten_toBytes (events : List SSEEvent) :
    (events.map SSEEvent.toBytes).flatten = utf8 (String.ofList (textOf events)) := by
  unfold utf8 textOf SSEEvent.toBytes
  rw [String.toList_ofList]
  induction events with
  | nil => rfl
  | cons e events ih =>
    rw [List.map_cons, List.flatten_cons, ih, List.flatMap_cons, List.flatMap_append]
    rfl

theorem sseCollect_ok {es : List SSEEvent} (hes : eventsOf SseItem.collect items = .ok es) :
    sseCollect items = .body (utf8 (String.ofList (textOf es))) := by
  unfold sseCollect
  rw [formatItems_eq, hes, ← flatten_toBytes]
  rfl

theorem sseCollect_error {exc : PyExc} (hes : eventsOf SseItem.collect items = .error exc) :
    sseCollect items = .raised exc := by
  unfold sseCollect
  rw [formatItems_eq, hes]
  rfl

/-- Inside of a runtime the task is spawned and sends the events. -/
theorem sseStream_ok {thread : CallThread} (hentered : thread.entered = true) {es : List SSEEvent}
    (hes : eventsOf SseItem.stream items = .ok es) :
    sseStream thread items = .body (utf8 (String.ofList (textOf es))) := by
  unfold sseStream
  rw [formatItems_eq, hes, hentered, ← flatten_toBytes]
  rfl

/-- Outside of one there is no body, whatever the items are. -/
theorem sseStream_of_not_entered {thread : CallThread} (hentered : thread.entered = false)
    {es : List SSEEvent} (hes : eventsOf SseItem.stream items = .ok es) :
    (∃ exc, sseStream thread items = .raised exc) ↔ thread.unwinds = true := by
  unfold sseStream
  rw [formatItems_eq, hes, hentered]
  cases thread.unwinds with
  | true => exact iff_of_true ⟨_, rfl⟩ rfl
  | false => exact iff_of_false nofun nofun

theorem sseStream_error {exc : PyExc} (thread : CallThread)
    (hes : eventsOf SseItem.stream items = .error exc) : sseStream thread items = .raised exc := by
  unfold sseStream
  rw [formatItems_eq, hes]
  rfl

theorem bothAgree_iff_textOf {thread : CallThread} (hentered : thread.entered = true)
    {es es' : List SSEEvent} (hes : eventsOf SseItem.collect items = .ok es)
    (hes' : eventsOf SseItem.stream items = .ok es') :
    BothAgree thread items ↔ textOf es = textOf es' := by
  unfold BothAgree
  rw [sseCollect_ok hes, sseStream_ok hentered hes']
  constructor
  · intro h
    exact String.ofList_injective (utf8_injective h)
  · intro h
    rw [h]

/-- The texts of two sequences of events agree only event by event, since the first difference
cannot be made up for by what comes after it. -/
theorem alike_of_textOf {es es' : List SSEEvent} (hes : eventsOf SseItem.collect items = .ok es)
    (hes' : eventsOf SseItem.stream items = .ok es') (h : textOf es = textOf es') :
    ∀ i, .ok i ∈ items → i.Alike := by
  induction items generalizing es es' with
  | nil => exact nofun
  | cons item items ih =>
    obtain ⟨e, es, he, htail, rfl⟩ := mapM_cons_ok hes
    obtain ⟨e', es', he', htail', rfl⟩ := mapM_cons_ok hes'
    cases item with
    | error x => cases he
    | ok first =>
      obtain ⟨hfirst, hrest⟩ := SseItem.alike_of_append he he' h
      intro i hi
      rcases List.mem_cons.mp hi with heq | hi
      · cases heq
        exact hfirst
      · exact ih htail htail' hrest i hi

theorem formatItems_eq_of_alike (h : ∀ i, .ok i ∈ items → i.Alike) :
    formatItems SseItem.collect items = formatItems SseItem.stream items := by
  unfold formatItems
  induction items with
  | nil => rfl
  | cons item items ih =>
    rw [List.mapM_cons, List.mapM_cons, ih fun i hi => h i (List.mem_cons_of_mem _ hi)]
    cases item with
    | error x => rfl
    | ok i =>
      have hformat := congrArg (utf8 <$> ·) (h i List.mem_cons_self).format_eq
      refine congrArg (· >>= _) ?_
      change (do return (← i.collect).toBytes) = (do return (← i.stream).toBytes)
      cases hcollect : i.collect <;> cases hstream : i.stream <;> rw [hcollect, hstream] at hformat <;>
        exact hformat

theorem exists_eventsOf_iff {able : SseItem → Bool} (h : ∀ i, (toEvent i).isOk = able i) :
    (∃ es, eventsOf toEvent items = .ok es) ↔ ∀ item ∈ items, Formats item able := by
  unfold eventsOf
  rw [exists_mapM_ok_iff]
  refine forall_congr' fun item => imp_congr_right fun _ => ?_
  cases item with
  | error x => exact iff_of_false nofun nofun
  | ok i =>
    have hable := h i
    change (∃ e, toEvent i = .ok e) ↔ _
    cases hi : toEvent i with
    | error x =>
      rw [hi] at hable
      refine iff_of_false nofun ?_
      rintro ⟨i', heq, htrue⟩
      cases heq
      exact Bool.false_ne_true (hable.trans htrue)
    | ok e =>
      rw [hi] at hable
      exact iff_of_true ⟨e, rfl⟩ ⟨i, rfl, hable.symm⟩

theorem eventsOf_error_iff {able : SseItem → Bool} (h : ∀ i, (toEvent i).isOk = able i) :
    (∃ exc, eventsOf toEvent items = .error exc) ↔ ∃ item ∈ items, ¬ Formats item able := by
  constructor
  · rintro ⟨exc, hexc⟩
    by_contra hall
    push Not at hall
    obtain ⟨es, hes⟩ := (exists_eventsOf_iff h).mpr hall
    cases hes.symm.trans hexc
  · rintro ⟨item, hitem, hnot⟩
    cases hes : eventsOf toEvent items with
    | error exc => exact ⟨exc, rfl⟩
    | ok es => exact absurd ((exists_eventsOf_iff h).mp ⟨es, hes⟩ item hitem) hnot

theorem not_alike_of_differs {es : List SSEEvent} {exc : PyExc}
    (h : eventsOf SseItem.collect items = .ok es ∧ eventsOf SseItem.stream items = .error exc ∨
      eventsOf SseItem.collect items = .error exc ∧ eventsOf SseItem.stream items = .ok es) :
    ¬ ∀ i, .ok i ∈ items → i.Alike := by
  intro halike
  have heq := formatItems_eq_of_alike halike
  rw [formatItems_eq, formatItems_eq] at heq
  rcases h with ⟨hes, hes'⟩ | ⟨hes, hes'⟩
  · rw [hes, hes'] at heq
    cases heq
  · rw [hes, hes'] at heq
    cases heq

theorem textOf_eq_iff_alike {es es' : List SSEEvent}
    (hes : eventsOf SseItem.collect items = .ok es)
    (hes' : eventsOf SseItem.stream items = .ok es') :
    textOf es = textOf es' ↔ ∀ i, .ok i ∈ items → i.Alike := by
  refine ⟨alike_of_textOf hes hes', fun halike => ?_⟩
  have heq := formatItems_eq_of_alike halike
  rw [formatItems_eq, formatItems_eq, hes, hes'] at heq
  have hbytes := congrArg List.flatten (Except.ok.inj heq)
  rw [flatten_toBytes, flatten_toBytes] at hbytes
  exact String.ofList_injective (utf8_injective hbytes)

/-- The two differ in what they make of an object with a `data` attribute; and without a runtime
there is no stream. -/
theorem bothAgree_iff (thread : CallThread) (items : SseItems) :
    BothAgree thread items ↔
      thread.entered = true ∧ (∀ i, .ok i ∈ items → i.Alike) ∨
        (∃ item ∈ items, ¬ Formats item SseItem.collectible) ∧
          (thread.entered = false ∧ thread.unwinds = true ∨
            ∃ item ∈ items, ¬ Formats item SseItem.streamable) := by
  rw [← eventsOf_error_iff SseItem.collect_isOk, ← eventsOf_error_iff SseItem.stream_isOk]
  unfold BothAgree
  cases hes : eventsOf SseItem.collect items with
  | ok es =>
    rw [sseCollect_ok hes, or_iff_left fun h => nomatch h.1]
    cases hes' : eventsOf SseItem.stream items with
    | ok es' =>
      cases hentered : thread.entered with
      | true =>
        rw [← textOf_eq_iff_alike hes hes', ← bothAgree_iff_textOf hentered hes hes', BothAgree,
          sseCollect_ok hes, and_iff_right rfl]
      | false =>
        -- the items are collected, and spawning the task panics
        refine iff_of_false ?_ fun h => Bool.false_ne_true h.1
        unfold sseStream
        rw [formatItems_eq, hes', hentered]
        cases thread.unwinds <;> exact id
    | error exc =>
      rw [sseStream_error thread hes']
      exact iff_of_false id fun h => not_alike_of_differs (.inl ⟨hes, hes'⟩) h.2
  | error exc =>
    have hraises : ∃ exc', (.error exc : Except PyExc (List SSEEvent)) = .error exc' := ⟨exc, rfl⟩
    rw [sseCollect_error hes, and_iff_right hraises]
    cases hes' : eventsOf SseItem.stream items with
    | ok es' =>
      -- the collection raises, so the stream has to panic into Python
      have hdiffers := not_alike_of_differs (.inr ⟨hes, hes'⟩)
      rw [or_iff_right fun h => hdiffers h.2, or_iff_left nofun]
      cases hentered : thread.entered with
      | true =>
        rw [sseStream_ok hentered hes']
        exact iff_of_false id fun h => Bool.false_ne_true h.1.symm
      | false =>
        rw [and_iff_right rfl, ← sseStream_of_not_entered hentered hes']
        cases sseStream thread items with
        | body bytes => exact iff_of_false id nofun
        | raised exc' => exact iff_of_true trivial ⟨exc', rfl⟩
        | aborted => exact iff_of_false id nofun
    | error exc' =>
      rw [sseStream_error thread hes']
      exact iff_of_true trivial (.inr (.inr ⟨exc', rfl⟩))

def textItem (s : String) : SseItem := .object ⟨some s, fun _ => none, .ok s⟩

/-- An object with the attribute `data`, as a namespace with this one attribute has it. -/
def dataObject : SseItem :=
  .object ⟨none, fun name => if name = "data" then some ⟨.ok "a", .error (typeError "not an int")⟩
    else none, .ok "namespace(data='a')"⟩

/-- A handler can collect a text, and not stream it; where there is a runtime, the two make
different events of an object with `data`. -/
theorem text_not_streamed :
    (¬ ∀ unwinds items, BothAgree (handlerThread unwinds) items) ∧
      ¬ ∀ items, BothAgree ⟨true, true⟩ items := by
  constructor
  · intro h
    have hcollect : eventsOf SseItem.collect [.ok (textItem "a")] = .ok [.ofData "a"] := rfl
    have hstream : eventsOf SseItem.stream [.ok (textItem "a")] = .ok [.ofData "a"] := rfl
    obtain ⟨exc, hraised⟩ := (@sseStream_of_not_entered _ (handlerThread true) rfl _ hstream).mpr rfl
    have hagree := h true [.ok (textItem "a")]
    unfold BothAgree at hagree
    rw [sseCollect_ok hcollect, hraised] at hagree
    exact hagree
  · intro h
    have hagree := (bothAgree_iff_textOf rfl rfl rfl).mp (h [.ok dataObject])
    exact absurd hagree (by decide +kernel)

end Hypern.Http
