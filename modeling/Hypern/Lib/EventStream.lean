import Mathlib

/-! Reading an event stream: its lines, their fields, and the messages a client is handed. -/

namespace Hypern.Lib.EventStream

/-! ## Lines -/

/-- A line ends at CR LF, at LF or at CR. What follows the last end is not a line. -/
def linesFrom (line : List Char) : List Char → List (List Char)
  | [] => []
  | '\r' :: '\n' :: rest => line :: linesFrom [] rest
  | c :: rest =>
    if c = '\r' ∨ c = '\n' then line :: linesFrom [] rest else linesFrom (line ++ [c]) rest

def byteOrderMark : Char := Char.ofNat 0xFEFF

def dropMark : List Char → List Char
  | [] => []
  | c :: rest => if c = byteOrderMark then rest else c :: rest

def Unbroken (line : List Char) : Prop := '\r' ∉ line ∧ '\n' ∉ line

instance (line : List Char) : Decidable (Unbroken line) := inferInstanceAs (Decidable (_ ∧ _))

theorem linesFrom_feed (line rest : List Char) :
    linesFrom line ('\n' :: rest) = line :: linesFrom [] rest := rfl

theorem linesFrom_char {c : Char} (hcr : c ≠ '\r') (hlf : c ≠ '\n') (line rest : List Char) :
    linesFrom line (c :: rest) = linesFrom (line ++ [c]) rest := by
  rw [linesFrom]
  · exact if_neg (not_or.mpr ⟨hcr, hlf⟩)
  · rintro - rfl
    exact absurd rfl hcr

theorem linesFrom_line {text : List Char} (h : Unbroken text) (line rest : List Char) :
    linesFrom line (text ++ '\n' :: rest) = (line ++ text) :: linesFrom [] rest := by
  induction text generalizing line with
  | nil => rw [List.nil_append, List.append_nil, linesFrom_feed]
  | cons c text ih =>
    have hcr := List.ne_of_not_mem_cons h.1
    have hlf := List.ne_of_not_mem_cons h.2
    have htext := ih ⟨List.not_mem_of_not_mem_cons h.1, List.not_mem_of_not_mem_cons h.2⟩
    rw [List.cons_append, linesFrom_char hcr.symm hlf.symm, htext, List.append_assoc,
      List.singleton_append]

theorem notMem_linesFrom {line text : List Char} (h : '\r' ∉ line) :
    ∀ l ∈ linesFrom line text, '\r' ∉ l := by
  fun_induction linesFrom line text with
  | case1 => exact fun l hl => absurd hl List.not_mem_nil
  | case2 line rest ih => exact List.forall_mem_cons.mpr ⟨h, ih List.not_mem_nil⟩
  | case3 line c rest _ hend ih => exact List.forall_mem_cons.mpr ⟨h, ih List.not_mem_nil⟩
  | case4 line c rest _ hend ih =>
    refine ih fun hmem => ?_
    rcases List.mem_append.mp hmem with hmem | hmem
    · exact h hmem
    · exact hend (Or.inl (List.mem_singleton.mp hmem).symm)

/-! ## Fields -/

/-- What one block says. -/
structure Message where
  id : Option (List Char)
  event : Option (List Char)
  data : List Char
  retry : Option Nat
  deriving DecidableEq

def Message.empty : Message := ⟨none, none, [], none⟩

/-- The block being read holds the data with an LF after each line. The id and the time between
connections stay for the blocks that do not name one. -/
structure Client where
  block : Message
  lastEventId : List Char
  reconnectionTime : Option Nat
  messages : List Message

namespace Client

def new : Client := ⟨.empty, [], none, []⟩

def processField (client : Client) (name value : List Char) : Client :=
  if name = "event".toList then
    { client with block := { client.block with event := some value } }
  else if name = "data".toList then
    { client with block := { client.block with data := client.block.data ++ (value ++ ['\n']) } }
  else if name = "id".toList then
    if Char.ofNat 0 ∈ value then client
    else { client with block := { client.block with id := some value }, lastEventId := value }
  else if name = "retry".toList then
    if value ≠ [] ∧ ∀ c ∈ value, c.isDigit = true then
      let time := Nat.ofDigitChars 10 value 0
      { client with block := { client.block with retry := some time }, reconnectionTime := some time }
    else client
  else client

/-- One LF is taken off the end of the data. -/
def finish (data : List Char) : List Char :=
  if data.getLast? = some '\n' then data.dropLast else data

/-- A block without data is not handed on. -/
def dispatch (client : Client) : Client :=
  if client.block.data = [] then { client with block := .empty }
  else
    { client with
      block := .empty
      messages := client.messages ++ [{ client.block with data := finish client.block.data }] }

def dropSpace : List Char → List Char
  | ' ' :: value => value
  | value => value

def processLine (client : Client) (line : List Char) : Client :=
  if line = [] then client.dispatch
  -- a comment
  else if line.head? = some ':' then client
  else
    match line.dropWhile (· != ':') with
    | [] => client.processField line []
    | _ :: value => client.processField (line.takeWhile (· != ':')) (dropSpace value)

/-- The client after the text. -/
def feed (client : Client) (text : List Char) : Client :=
  (linesFrom [] text).foldl processLine client

theorem feed_break (client : Client) (rest : List Char) :
    client.feed ('\n' :: rest) = client.dispatch.feed rest := rfl

theorem processLine_field {name : List Char} (hne : name ≠ []) (hname : ':' ∉ name)
    (client : Client) (value : List Char) :
    client.processLine (name ++ ':' :: ' ' :: value) = client.processField name value := by
  have hstop : ∀ c ∈ name, (c != ':') = true := fun c hc =>
    bne_iff_ne.mpr fun h => hname (h ▸ hc)
  have hhead : (name ++ ':' :: ' ' :: value).head? ≠ some ':' := by
    obtain ⟨c, name, rfl⟩ := List.exists_cons_of_ne_nil hne
    intro h
    exact hname (Option.some.inj h ▸ List.mem_cons_self)
  unfold processLine
  rw [if_neg (by simp [hne]), if_neg hhead, List.dropWhile_append_of_pos hstop,
    List.takeWhile_append_of_pos hstop]
  exact congrArg (client.processField · value) (List.append_nil name)

theorem feed_field {name value : List Char} (hne : name ≠ []) (hcolon : ':' ∉ name)
    (hname : Unbroken name) (hvalue : Unbroken value) (client : Client) (rest : List Char) :
    client.feed (name ++ ':' :: ' ' :: (value ++ '\n' :: rest)) =
      (client.processField name value).feed rest := by
  have hline : Unbroken (name ++ ':' :: ' ' :: value) := by
    refine ⟨?_, ?_⟩ <;> rw [List.mem_append, List.mem_cons, List.mem_cons] <;> rintro (h | h | h | h)
    exacts [hname.1 h, absurd h (by decide), absurd h (by decide), hvalue.1 h,
      hname.2 h, absurd h (by decide), absurd h (by decide), hvalue.2 h]
  have hsplit : name ++ ':' :: ' ' :: (value ++ '\n' :: rest) =
      (name ++ ':' :: ' ' :: value) ++ '\n' :: rest := by simp
  unfold feed
  rw [hsplit, linesFrom_line hline, List.nil_append, List.foldl_cons, processLine_field hne hcolon]

theorem processField_event (client : Client) (value : List Char) :
    client.processField "event".toList value =
      { client with block := { client.block with event := some value } } := if_pos rfl

theorem processField_data (client : Client) (value : List Char) :
    client.processField "data".toList value =
      { client with block := { client.block with data := client.block.data ++ (value ++ ['\n']) } } :=
  (if_neg (by decide)).trans (if_pos rfl)

theorem processField_id {value : List Char} (h : Char.ofNat 0 ∉ value) (client : Client) :
    client.processField "id".toList value =
      { client with block := { client.block with id := some value }, lastEventId := value } :=
  (if_neg (by decide)).trans ((if_neg (by decide)).trans ((if_pos rfl).trans (if_neg h)))

theorem processField_retry (n : Nat) (client : Client) :
    client.processField "retry".toList n.repr.toList =
      { client with block := { client.block with retry := some n }, reconnectionTime := some n } := by
  have hdigits : n.repr.toList ≠ [] ∧ ∀ c ∈ n.repr.toList, c.isDigit = true := by
    rw [Nat.toList_repr]
    exact ⟨Nat.toDigits_ne_nil, fun c hc => Nat.isDigit_of_mem_toDigits (by decide) (by decide) hc⟩
  have htime : Nat.ofDigitChars 10 n.repr.toList 0 = n := by
    rw [Nat.toList_repr, Nat.ofDigitChars_ten_toDigits]
  refine (if_neg (by decide)).trans ((if_neg (by decide)).trans ((if_neg (by decide)).trans
    ((if_pos rfl).trans ((if_pos hdigits).trans ?_))))
  rw [htime]

/-! ## No message holds a CR -/

structure NoReturns (client : Client) : Prop where
  block : '\r' ∉ client.block.data
  messages : ∀ m ∈ client.messages, '\r' ∉ m.data

theorem NoReturns.processField {client : Client} (h : client.NoReturns) (name : List Char)
    {value : List Char} (hvalue : '\r' ∉ value) : (client.processField name value).NoReturns := by
  unfold Client.processField
  split_ifs
  · exact ⟨h.block, h.messages⟩
  · refine ⟨fun hmem => ?_, h.messages⟩
    rcases List.mem_append.mp hmem with hmem | hmem
    · exact h.block hmem
    · rcases List.mem_append.mp hmem with hmem | hmem
      · exact hvalue hmem
      · exact absurd hmem (by decide)
  · exact h
  · exact ⟨h.block, h.messages⟩
  · exact ⟨h.block, h.messages⟩
  · exact h
  · exact h

theorem mem_of_mem_finish {c : Char} {data : List Char} (h : c ∈ finish data) : c ∈ data := by
  unfold finish at h
  split_ifs at h
  · exact (List.dropLast_sublist data).subset h
  · exact h

theorem NoReturns.dispatch {client : Client} (h : client.NoReturns) : client.dispatch.NoReturns := by
  unfold Client.dispatch
  split_ifs
  · exact ⟨List.not_mem_nil, h.messages⟩
  · refine ⟨List.not_mem_nil, fun m hm => ?_⟩
    rcases List.mem_append.mp hm with hm | hm
    · exact h.messages m hm
    · rw [List.mem_singleton.mp hm]
      exact fun hmem => h.block (mem_of_mem_finish hmem)

theorem mem_of_mem_dropSpace {c : Char} {value : List Char} (h : c ∈ dropSpace value) :
    c ∈ value := by
  unfold dropSpace at h
  split at h
  · exact List.mem_cons_of_mem _ h
  · exact h

theorem NoReturns.processLine {client : Client} (h : client.NoReturns) {line : List Char}
    (hline : '\r' ∉ line) : (client.processLine line).NoReturns := by
  unfold Client.processLine
  split_ifs
  · exact h.dispatch
  · exact h
  · split
    · exact h.processField _ List.not_mem_nil
    · next c value hrest =>
      refine h.processField _ fun hmem => hline ?_
      have hmem' : '\r' ∈ line.dropWhile (· != ':') := by
        rw [hrest]
        exact List.mem_cons_of_mem _ (mem_of_mem_dropSpace hmem)
      exact (List.dropWhile_sublist _).subset hmem'

/-- Every CR of a stream ends a line. -/
theorem NoReturns.feed {client : Client} (h : client.NoReturns) (text : List Char) :
    (client.feed text).NoReturns := by
  have hlines : ∀ l ∈ linesFrom [] text, '\r' ∉ l := notMem_linesFrom List.not_mem_nil
  unfold Client.feed
  generalize linesFrom [] text = lines at hlines
  induction lines generalizing client with
  | nil => exact h
  | cons line lines ih =>
    obtain ⟨hline, hlines⟩ := List.forall_mem_cons.mp hlines
    exact ih (h.processLine hline) hlines

end Client

/-- The client that has read the whole text. -/
def read (text : List Char) : Client := Client.new.feed (dropMark text)

def messages (text : List Char) : List Message := (read text).messages

theorem notMem_messages (text : List Char) : ∀ m ∈ messages text, '\r' ∉ m.data :=
  (Client.NoReturns.feed ⟨List.not_mem_nil, fun _ hm => absurd hm List.not_mem_nil⟩ _).messages

end Hypern.Lib.EventStream
