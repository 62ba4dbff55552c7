import Hypern.Http.Sse
import Hypern.Lib.EventStream
import Mathlib.Data.List.Induction

/-! What a client reads of the events that were formatted. -/

namespace Hypern.Http

open Lib EventStream

/-! ## Lines of the data -/

variable {data : List Char}

theorem mem_splitLines_ne_nil (data : List Char) : ∀ line ∈ splitLines data, line ≠ [] := by
  fun_induction splitLines data with
  | case1 => exact fun line hline => absurd hline List.not_mem_nil
  | case2 cs ih => exact List.forall_mem_cons.mpr ⟨List.cons_ne_nil _ _, ih⟩
  | case3 c cs _ _ _ => exact List.forall_mem_singleton.mpr (List.cons_ne_nil _ _)
  | case4 c cs _ line rest hrest ih =>
    rw [hrest] at ih
    exact List.forall_mem_cons.mpr ⟨List.cons_ne_nil _ _, (List.forall_mem_cons.mp ih).2⟩

theorem stripLineEnd_cons {c : Char} (hcr : c ≠ '\r') {line : List Char} (hne : line ≠ []) :
    stripLineEnd (c :: line) = c :: stripLineEnd line := by
  unfold stripLineEnd
  rw [List.getLast?_cons_of_ne_nil hne, List.dropLast_cons_of_ne_nil hne]
  dsimp only
  by_cases hlf : line.getLast? = some '\n'
  · rw [if_pos hlf, if_pos hlf]
    by_cases hline : line.dropLast = []
    · rw [hline, List.getLast?_singleton, if_neg (by simpa using hcr)]
      rfl
    · rw [List.getLast?_cons_of_ne_nil hline, List.dropLast_cons_of_ne_nil hline]
      split_ifs <;> rfl
  · rw [if_neg hlf, if_neg hlf]

/-- The first line takes one more character. -/
theorem lines_cons {c : Char} (hlf : c ≠ '\n') (hcr : c ≠ '\r') (hne : data ≠ []) :
    ∃ line rest, lines data = line :: rest ∧ lines (c :: data) = (c :: line) :: rest := by
  have hlines := mem_splitLines_ne_nil data
  unfold lines
  rw [splitLines, if_neg hlf]
  cases hsplit : splitLines data with
  | nil =>
    obtain ⟨d, data, rfl⟩ := List.exists_cons_of_ne_nil hne
    rw [splitLines] at hsplit
    split_ifs at hsplit
    split at hsplit <;> cases hsplit
  | cons line rest =>
    refine ⟨stripLineEnd line, rest.map stripLineEnd, rfl, ?_⟩
    rw [hsplit] at hlines
    exact congrArg (· :: rest.map stripLineEnd)
      (stripLineEnd_cons hcr (List.forall_mem_cons.mp hlines).1)

/-- The data as the client collects it. -/
def ended (data : List Char) : List Char :=
  if data = [] ∨ data.getLast? = some '\n' then data else data ++ ['\n']

theorem ended_cons {c : Char} (hne : data ≠ []) : ended (c :: data) = c :: ended data := by
  unfold ended
  rw [List.getLast?_cons_of_ne_nil hne]
  by_cases hlf : data.getLast? = some '\n'
  · rw [if_pos (Or.inr hlf), if_pos (Or.inr hlf)]
  · rw [if_neg (by simp [hlf]), if_neg (by simp [hne, hlf]), List.cons_append]

/-- How text without CR falls into lines, character by character. -/
inductive Lines : List Char → List (List Char) → Prop
  | nil : Lines [] []
  | feed {data ls} : Lines data ls → Lines ('\n' :: data) ([] :: ls)
  | last {c} : c ≠ '\n' → c ≠ '\r' → Lines [c] [[c]]
  | char {c data line ls} : c ≠ '\n' → c ≠ '\r' → Lines data (line :: ls) →
      Lines (c :: data) ((c :: line) :: ls)

theorem lines_spec (h : '\r' ∉ data) : Lines data (lines data) := by
  induction data with
  | nil => exact .nil
  | cons c data ih =>
    have hcr := (List.ne_of_not_mem_cons h).symm
    have ih := ih (List.not_mem_of_not_mem_cons h)
    by_cases hlf : c = '\n'
    · subst hlf
      exact .feed ih
    · by_cases hne : data = []
      · have hlast : lines [c] = [[c]] := by simp [lines, splitLines, stripLineEnd, hlf]
        subst hne
        rw [hlast]
        exact .last hlf hcr
      · obtain ⟨line, rest, hdata, hcons⟩ := lines_cons hlf hcr hne
        rw [hcons]
        exact .char hlf hcr (hdata ▸ ih)

variable {ls : List (List Char)}

theorem Lines.unbroken (h : Lines data ls) : ∀ line ∈ ls, Unbroken line := by
  induction h with
  | nil => exact fun line hline => absurd hline List.not_mem_nil
  | feed _ ih => exact List.forall_mem_cons.mpr ⟨⟨List.not_mem_nil, List.not_mem_nil⟩, ih⟩
  | last hlf hcr =>
    exact List.forall_mem_singleton.mpr ⟨by simpa using hcr.symm, by simpa using Ne.symm hlf⟩
  | char hlf hcr _ ih =>
    obtain ⟨hline, hrest⟩ := List.forall_mem_cons.mp ih
    refine List.forall_mem_cons.mpr ⟨⟨?_, ?_⟩, hrest⟩
    · exact List.not_mem_cons_of_ne_of_not_mem hcr.symm hline.1
    · exact List.not_mem_cons_of_ne_of_not_mem (Ne.symm hlf) hline.2

theorem Lines.ended (h : Lines data ls) : ls.flatMap (· ++ ['\n']) = ended data := by
  induction h with
  | nil => rfl
  | @feed data ls _ ih =>
    rw [List.flatMap_cons, ih]
    by_cases hne : data = []
    · subst hne
      rfl
    · exact (ended_cons hne).symm
  | last hlf _ => simp [Http.ended, hlf]
  | @char c data line ls _ _ hdata ih =>
    have hne : data ≠ [] := by
      rintro rfl
      cases hdata
    rw [ended_cons hne, ← ih]
    rfl

/-! ## One event -/

namespace SSEEvent

def message (e : SSEEvent) : Message :=
  ⟨e.id.map String.toList, e.event.map String.toList, e.data.toList, e.retry⟩

/-- Nothing in a value ends its line, and the client takes it for an id. -/
def Inline (value : String) : Prop := Unbroken value.toList ∧ Char.ofNat 0 ∉ value.toList

instance (value : String) : Decidable (Inline value) := inferInstanceAs (Decidable (_ ∧ _))

structure Clean (e : SSEEvent) : Prop where
  id : ∀ value ∈ e.id, Inline value
  event : ∀ value ∈ e.event, Inline value

/-! The client reads the parts of an event one after the other. -/

def FieldName (name : String) : Prop :=
  name.toList ≠ [] ∧ ':' ∉ name.toList ∧ Unbroken name.toList

instance (name : String) : Decidable (FieldName name) := inferInstanceAs (Decidable (_ ∧ _))

theorem feed_fieldLine {name : String} (hname : FieldName name) {value : List Char}
    (hvalue : Unbroken value) (client : Client) (rest : List Char) :
    client.feed (fieldLine name value ++ rest) =
      (client.processField name.toList value).feed rest := by
  have hline : fieldLine name value ++ rest =
      name.toList ++ ':' :: ' ' :: (value ++ '\n' :: rest) := by simp [fieldLine]
  rw [hline, Client.feed_field hname.1 hname.2.1 hname.2.2 hvalue]

theorem feed_id {id : Option String} (h : ∀ value ∈ id, Inline value) (client : Client)
    (rest : List Char) : client.feed (optionalLine "id" id ++ rest) =
      Client.feed
        { client with
          block := { client.block with id := (id.map String.toList).or client.block.id }
          lastEventId := (id.map String.toList).getD client.lastEventId } rest := by
  cases id with
  | none => rfl
  | some value =>
    obtain ⟨hvalue, hzero⟩ := h value rfl
    exact (feed_fieldLine (by decide) hvalue client rest).trans
      (congrArg (Client.feed · rest) (Client.processField_id hzero client))

theorem feed_event {event : Option String} (h : ∀ value ∈ event, Inline value) (client : Client)
    (rest : List Char) : client.feed (optionalLine "event" event ++ rest) =
      Client.feed
        { client with
          block := { client.block with event := (event.map String.toList).or client.block.event } }
        rest := by
  cases event with
  | none => rfl
  | some value =>
    exact (feed_fieldLine (by decide) (h value rfl).1 client rest).trans
      (congrArg (Client.feed · rest) (Client.processField_event client _))

theorem unbroken_repr (n : Nat) : Unbroken n.repr.toList := by
  have hdigit : ∀ c ∈ n.repr.toList, c.isDigit = true := by
    rw [Nat.toList_repr]
    exact fun c hc => Nat.isDigit_of_mem_toDigits (by decide) (by decide) hc
  exact ⟨fun h => absurd (hdigit _ h) (by decide), fun h => absurd (hdigit _ h) (by decide)⟩

theorem feed_retry (retry : Option Nat) (client : Client) (rest : List Char) :
    client.feed (optionalLine "retry" (retry.map Nat.repr) ++ rest) =
      Client.feed
        { client with
          block := { client.block with retry := retry.or client.block.retry }
          reconnectionTime := retry.or client.reconnectionTime } rest := by
  cases retry with
  | none => rfl
  | some n =>
    exact (feed_fieldLine (by decide) (unbroken_repr n) client rest).trans
      (congrArg (Client.feed · rest) (Client.processField_retry n client))

theorem feed_data {lines : List (List Char)} (h : ∀ line ∈ lines, Unbroken line)
    (client : Client) (rest : List Char) :
    client.feed (lines.flatMap (fieldLine "data") ++ rest) =
      Client.feed
        { client with
          block := { client.block with
            data := client.block.data ++ lines.flatMap (· ++ ['\n']) } } rest := by
  induction lines generalizing client with
  | nil => rw [List.flatMap_nil, List.flatMap_nil, List.append_nil, List.nil_append]
  | cons line lines ih =>
    obtain ⟨hline, hlines⟩ := List.forall_mem_cons.mp h
    rw [List.flatMap_cons, List.append_assoc, feed_fieldLine (by decide) hline,
      Client.processField_data, ih hlines, List.flatMap_cons]
    simp only [List.append_assoc]

/-- The client after an event that has no CR in its data. -/
def handOn (client : Client) (e : SSEEvent) : Client :=
  Client.dispatch
    { client with
      block := { e.message with data := ended e.data.toList }
      lastEventId := e.message.id.getD client.lastEventId
      reconnectionTime := e.retry.or client.reconnectionTime }

theorem feed_format {e : SSEEvent} (h : e.Clean) (hdata : '\r' ∉ e.data.toList)
    {client : Client} (hblock : client.block = .empty) (rest : List Char) :
    client.feed (e.format.toList ++ rest) = (handOn client e).feed rest := by
  unfold format
  rw [String.toList_ofList]
  simp only [List.append_assoc]
  rw [feed_id h.id, feed_event h.event, feed_retry, feed_data (lines_spec hdata).unbroken,
    (lines_spec hdata).ended]
  simp only [hblock, Message.empty, Option.or_none, List.nil_append]
  exact Client.feed_break _ rest

/-- The message that comes of the event, if one does. -/
def delivered (e : SSEEvent) : Option Message :=
  if ended e.data.toList = [] then none
  else some { e.message with data := Client.finish (ended e.data.toList) }

theorem handOn_block (client : Client) (e : SSEEvent) : (handOn client e).block = .empty := by
  unfold handOn Client.dispatch
  split_ifs <;> rfl

theorem handOn_messages (client : Client) (e : SSEEvent) :
    (handOn client e).messages = client.messages ++ e.delivered.toList := by
  unfold handOn Client.dispatch delivered
  dsimp only
  split_ifs
  · exact (List.append_nil _).symm
  · rfl

theorem feed_formats {events : List SSEEvent} (h : ∀ e ∈ events, e.Clean)
    (hdata : ∀ e ∈ events, '\r' ∉ e.data.toList) {client : Client}
    (hblock : client.block = .empty) :
    client.feed (events.flatMap fun e => e.format.toList) = events.foldl handOn client := by
  induction events generalizing client with
  | nil => rfl
  | cons e events ih =>
    obtain ⟨he, hevents⟩ := List.forall_mem_cons.mp h
    obtain ⟨hdata, hdatas⟩ := List.forall_mem_cons.mp hdata
    rw [List.flatMap_cons, feed_format he hdata hblock]
    exact ih hevents hdatas (handOn_block client e)

theorem foldl_handOn_messages (events : List SSEEvent) (client : Client) :
    (events.foldl handOn client).messages = client.messages ++ events.filterMap delivered := by
  induction events generalizing client with
  | nil => exact (List.append_nil _).symm
  | cons e events ih =>
    rw [List.foldl_cons, ih, handOn_messages, List.filterMap_cons, List.append_assoc]
    cases e.delivered <;> rfl

/-- The data of the event is text that the format can carry. -/
structure Deliverable (e : SSEEvent) : Prop where
  nonempty : e.data ≠ ""
  noReturns : '\r' ∉ e.data.toList
  unended : e.data.toList.getLast? ≠ some '\n'

theorem finish_ended_iff {data : List Char} (hne : data ≠ []) :
    Client.finish (ended data) = data ↔ data.getLast? ≠ some '\n' := by
  unfold ended
  by_cases hlf : data.getLast? = some '\n'
  · rw [if_pos (Or.inr hlf), Client.finish, if_pos hlf]
    refine iff_of_false (fun h => ?_) (not_not_intro hlf)
    have hlength := congrArg List.length h
    have hpos := List.length_pos_iff.mpr hne
    rw [List.length_dropLast] at hlength
    omega
  · rw [if_neg (by simp [hne, hlf]), Client.finish, if_pos List.getLast?_concat, List.dropLast_concat]
    exact iff_of_true rfl hlf

theorem delivered_eq_message_iff {e : SSEEvent} (h : '\r' ∉ e.data.toList) :
    e.delivered = some e.message ↔ e.Deliverable := by
  unfold delivered
  by_cases hne : e.data.toList = []
  · have hended : ended e.data.toList = [] := by rw [hne]; rfl
    rw [if_pos hended]
    refine iff_of_false (fun h => nomatch h) fun hdeliverable => hdeliverable.nonempty ?_
    exact String.toList_eq_nil_iff.mp hne
  · have hended : ended e.data.toList ≠ [] := by
      unfold ended
      split_ifs
      · exact hne
      · exact List.append_ne_nil_of_right_ne_nil _ (List.cons_ne_nil _ _)
    have hdata : some { e.message with data := Client.finish (ended e.data.toList) } = some e.message ↔
        Client.finish (ended e.data.toList) = e.data.toList :=
      ⟨fun hsome => congrArg Message.data (Option.some.inj hsome), fun hfinish => by rw [hfinish]; rfl⟩
    rw [if_neg hended, hdata, finish_ended_iff hne]
    exact ⟨fun hlf => ⟨fun hempty => hne (String.toList_eq_nil_iff.mpr hempty), h, hlf⟩,
      fun hdeliverable => hdeliverable.unended⟩

/-- No event begins with a byte order mark. -/
theorem format_start (e : SSEEvent) : ∃ c rest, e.format.toList = c :: rest ∧ c ≠ byteOrderMark := by
  unfold format
  rw [String.toList_ofList]
  cases e.id with
  | some id => exact ⟨'i', _, rfl, by decide⟩
  | none =>
    cases e.event with
    | some event => exact ⟨'e', _, rfl, by decide⟩
    | none =>
      cases e.retry with
      | some retry => exact ⟨'r', _, rfl, by decide⟩
      | none =>
        cases lines e.data.toList with
        | cons line rest => exact ⟨'d', _, rfl, by decide⟩
        | nil => exact ⟨'\n', _, rfl, by decide⟩

theorem dropMark_formats (events : List SSEEvent) :
    dropMark (events.flatMap fun e => e.format.toList) =
      events.flatMap fun e => e.format.toList := by
  cases events with
  | nil => rfl
  | cons e events =>
    obtain ⟨c, rest, hformat, hmark⟩ := e.format_start
    rw [List.flatMap_cons, hformat]
    exact if_neg hmark

end SSEEvent

open SSEEvent

/-- The loop of `Response::sse`. -/
def sseBody (events : List SSEEvent) : String :=
  events.foldl (fun body event => body ++ event.format) ""

theorem toList_sseBody (events : List SSEEvent) :
    (sseBody events).toList = events.flatMap fun e => e.format.toList := by
  have hbody : ∀ body : String, (events.foldl (fun body e => body ++ e.format) body).toList =
      body.toList ++ events.flatMap fun e => e.format.toList := by
    induction events with
    | nil => exact fun body => (List.append_nil _).symm
    | cons e events ih =>
      intro body
      rw [List.foldl_cons, ih, String.toList_append, List.append_assoc, List.flatMap_cons]
  exact hbody ""

theorem read_sseBody {events : List SSEEvent} (h : ∀ e ∈ events, e.Clean)
    (hdata : ∀ e ∈ events, '\r' ∉ e.data.toList) :
    EventStream.read (sseBody events).toList = events.foldl handOn Client.new := by
  unfold EventStream.read
  rw [toList_sseBody, dropMark_formats, feed_formats h hdata rfl]

/-- The client remembers the last id, also that of an event it was not handed. -/
theorem lastEventId_sseBody {events : List SSEEvent} (h : ∀ e ∈ events, e.Clean)
    (hdata : ∀ e ∈ events, '\r' ∉ e.data.toList) :
    (EventStream.read (sseBody events).toList).lastEventId =
      (events.filterMap fun e => e.message.id).getLast?.getD [] := by
  rw [read_sseBody h hdata]
  clear h hdata
  induction events using List.reverseRecOn with
  | nil => rfl
  | append_singleton events e ih =>
    have hid : ∀ client, (handOn client e).lastEventId = e.message.id.getD client.lastEventId := by
      intro client
      unfold handOn Client.dispatch
      split_ifs <;> rfl
    rw [List.foldl_append, List.foldl_cons, List.foldl_nil, hid, ih, List.filterMap_append]
    cases hmessage : e.message.id with
    | none => simp [hmessage]
    | some id => simp [hmessage]

/-- Events come out as they were sent when the format can carry the data of each of them. -/
theorem sse_round_trip_iff {events : List SSEEvent} (h : ∀ e ∈ events, e.Clean) :
    messages (sseBody events).toList = events.map message ↔ ∀ e ∈ events, e.Deliverable := by
  have hsent : (∀ e ∈ events, '\r' ∉ e.data.toList) →
      (messages (sseBody events).toList = events.map message ↔ ∀ e ∈ events, e.Deliverable) := by
    intro hdata
    have hmessages : messages (sseBody events).toList = events.filterMap delivered := by
      unfold messages
      rw [read_sseBody h hdata, foldl_handOn_messages]
      rfl
    rw [hmessages, List.filterMap_eq_map_iff_forall_eq_some]
    exact forall₂_congr fun e he => delivered_eq_message_iff (hdata e he)
  constructor
  · intro hequal
    -- no message holds a CR, and each event is one of the messages
    refine (hsent fun e he => ?_).mp hequal
    exact notMem_messages (sseBody events).toList e.message
      (hequal ▸ List.mem_map_of_mem he)
  · exact fun hdeliverable => (hsent fun e he => (hdeliverable e he).noReturns).mpr hdeliverable

/-- Blank lines and a leading blank are kept. -/
def sampleEvents : List SSEEvent :=
  [⟨some "7", some "tick", "a\n\nb", some 3000⟩, ⟨none, none, " x", none⟩]

theorem sampleEvents_round_trip :
    messages (sseBody sampleEvents).toList = sampleEvents.map message := by
  have hclean : ∀ e ∈ sampleEvents, e.Clean := by
    refine List.forall_mem_cons.mpr ⟨⟨fun value hvalue => ?_, fun value hvalue => ?_⟩,
      List.forall_mem_singleton.mpr ⟨fun value hvalue => ?_, fun value hvalue => ?_⟩⟩
    · cases hvalue
      decide
    · cases hvalue
      decide
    · cases hvalue
    · cases hvalue
  refine (sse_round_trip_iff hclean).mpr (List.forall_mem_cons.mpr ⟨?_, List.forall_mem_singleton.mpr ?_⟩)
  · exact ⟨by decide, by decide, by decide⟩
  · exact ⟨by decide, by decide, by decide⟩

/-- An event without data is not handed on. -/
theorem ping_is_lost :
    ¬ ∀ events : List SSEEvent, (∀ e ∈ events, e.Clean) →
      messages (sseBody events).toList = events.map message := by
  intro h
  have hclean : ∀ e ∈ [(⟨none, some "ping", "", none⟩ : SSEEvent)], e.Clean := by
    refine List.forall_mem_singleton.mpr ⟨fun value hvalue => ?_, fun value hvalue => ?_⟩
    · cases hvalue
    · cases hvalue
      decide
  exact absurd (h _ hclean) (by decide +kernel)

end Hypern.Http
