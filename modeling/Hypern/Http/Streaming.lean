import Hypern.Http.Sse
import Hypern.Lib.Threads

/-! `streaming.rs`: producers that put chunks on a bounded queue and the body that takes them off,
with a flag beside the queue. A call of a producer looks at the flag in one step and uses the
queue in another, and so does a poll of the body. -/

namespace Hypern.Http

open Lib

/-- A handle on the stream, with the chunks of the calls on it that have found the flag clear. -/
structure Producer where
  live : Bool
  waiting : List (List UInt8)

/-- `polling` holds while a poll has found the flag clear and not used the queue yet, `dropped`
once the body is gone. The rest is the past: the chunks for which a call has returned `true`, also
those at the time of the first `close`, the chunks the body has yielded, and whether it has
ended. -/
structure StreamState where
  capacity : Nat
  queue : List (List UInt8)
  closed : Bool
  producers : List Producer
  polling : Bool
  dropped : Bool
  accepted : List (List UInt8)
  acceptedByClose : Option (List (List UInt8))
  yielded : List (List UInt8)
  ended : Bool

/-- The calls of an `SSEStream` that make a chunk. -/
inductive SSECall
  | send (event : SSEEvent)
  | sendData (data : String)
  | sendEvent (eventName data : String)
  | keepalive

def SSECall.bytes : SSECall → List UInt8
  | .send event => event.toBytes
  | .sendData data => (SSEEvent.ofData data).toBytes
  | .sendEvent eventName data => (SSEEvent.named eventName data).toBytes
  | .keepalive => utf8 (SSEEvent.comment "keepalive")

/-- The calls of a `StreamingResponse` that make a chunk. -/
inductive WriteCall
  | write (data : List UInt8)
  | writeStr (data : String)
  | writeLine (data : String)

def WriteCall.bytes : WriteCall → List UInt8
  | .write data => data
  | .writeStr data => utf8 data
  | .writeLine data => utf8 (data.push '\n')

/-- `trySend handle i` is the second step of call `i` among those waiting on the handle. -/
inductive StreamAction (K : Type)
  | call (handle : Nat) (k : K)
  | trySend (handle i : Nat)
  | close (handle : Nat)
  | clone (handle : Nat)
  | drop (handle : Nat)
  | poll
  | recv
  | recvPending
  | dropBody

/-- `mpsc::channel(buffer_size)` and the flag. -/
def streamChannel (bufferSize : Nat) : Except String StreamState :=
  if bufferSize = 0 then .error "mpsc bounded channel requires buffer > 0"
  else if (2 ^ 64 - 1) / 2 ^ 3 < bufferSize then
    .error "a semaphore may not have more than MAX_PERMITS permits (2305843009213693951)"
  else .ok ⟨bufferSize, [], false, [⟨true, []⟩], false, false, [], none, [], false⟩

def SSEBody.new (bufferSize : Nat) : Except String StreamState := streamChannel bufferSize

def StreamingBody.new (bufferSize : Nat) : Except String StreamState := streamChannel bufferSize

namespace StreamState

variable {K : Type} (bytes : K → List UInt8) (s : StreamState)

def hasRoom : Prop := s.dropped = false ∧ s.queue.length < s.capacity

instance : Decidable s.hasRoom := inferInstanceAs (Decidable (_ ∧ _))

def allDropped : Prop := ∀ p ∈ s.producers, p.live = false

instance : Decidable s.allDropped := inferInstanceAs (Decidable (∀ _ ∈ _, _))

/-- A call on a handle that is still held. -/
def withHandle (handle : Nat) (f : Producer → Option StreamState) : Option StreamState :=
  match s.producers[handle]? with
  | some p => if p.live then f p else none
  | none => none

def setProducer (handle : Nat) (p : Producer) : StreamState :=
  { s with producers := s.producers.set handle p }

/-- `sender.try_send`; a failure leaves everything as it is and the call returns `false`. -/
def push (chunk : List UInt8) : StreamState :=
  if s.hasRoom then
    { s with queue := s.queue ++ [chunk], accepted := s.accepted ++ [chunk] }
  else s

def setClosed : StreamState :=
  { s with closed := true, acceptedByClose := some (s.acceptedByClose.getD s.accepted) }

/-- The second step of a poll, where `poll_recv` is ready. -/
def receive : Option StreamState :=
  match s.queue with
  | chunk :: queue =>
    some { s with polling := false, queue := queue, yielded := s.yielded ++ [chunk] }
  | [] => if s.allDropped then some { s with polling := false, ended := true } else none

/-- `poll_recv` may be pending at any time, when the task has used up its budget; with no chunk
and a producer left it always is. -/
def step : StreamAction K → Option StreamState
  | .call handle k => s.withHandle handle fun p =>
    if s.closed then some s
    else some (s.setProducer handle { p with waiting := p.waiting ++ [bytes k] })
  | .trySend handle i => s.withHandle handle fun p =>
    match p.waiting[i]? with
    | some chunk =>
      some ((s.setProducer handle { p with waiting := p.waiting.eraseIdx i }).push chunk)
    | none => none
  | .close handle => s.withHandle handle fun _ => some s.setClosed
  | .clone handle => s.withHandle handle fun _ =>
    some { s with producers := s.producers ++ [⟨true, []⟩] }
  | .drop handle => s.withHandle handle fun p =>
    if p.waiting = [] then some (s.setProducer handle ⟨false, []⟩) else none
  | .poll =>
    if s.dropped || s.polling then none
    else if s.closed then some { s with ended := true }
    else some { s with polling := true }
  | .recv => if s.dropped || !s.polling then none else s.receive
  | .recvPending => if s.dropped || !s.polling then none else some { s with polling := false }
  | .dropBody =>
    if s.dropped || s.polling then none else some { s with dropped := true, queue := [] }

/-- What the body yields is what was accepted, in that order, all of it once the body has ended;
and nothing is accepted after `close`. -/
structure Faithful (s : StreamState) : Prop where
  inOrder : s.yielded <+: s.accepted
  complete : s.ended = true → s.yielded = s.accepted
  final : ∀ accepted, s.acceptedByClose = some accepted → s.accepted = accepted

/-- A poll that finds the flag set has nothing left to take, and a call that found the flag clear
is not overtaken by `close`, unless the queue has no room for it anyway. -/
def InTime (s : StreamState) : StreamAction K → Prop
  | .poll => s.closed = true → s.queue = []
  | .trySend _ _ => s.closed = true → ¬ s.hasRoom
  | _ => True

instance (s : StreamState) : (action : StreamAction K) → Decidable (s.InTime action)
  | .poll => inferInstanceAs (Decidable (_ → _))
  | .trySend _ _ => inferInstanceAs (Decidable (_ → _))
  | .call _ _ | .close _ | .clone _ | .drop _ | .recv | .recvPending | .dropBody =>
    inferInstanceAs (Decidable True)

/-! ## The invariant -/

variable {bytes s} {t : StreamState}

structure Sound (s : StreamState) : Prop where
  balance : s.dropped = false → s.accepted = s.yielded ++ s.queue
  inOrder : s.yielded <+: s.accepted
  /-- A body ends when the flag is set or when no producer is left. -/
  ended : s.ended = true → s.yielded = s.accepted ∧ (s.closed = true ∨ s.allDropped)
  final : s.acceptedByClose = if s.closed then some s.accepted else none

theorem Sound.faithful (h : Sound s) : Faithful s := by
  refine ⟨h.inOrder, fun hended => (h.ended hended).1, fun accepted heq => ?_⟩
  rw [h.final] at heq
  exact Option.some.inj (Option.ite_none_right_eq_some.mp heq).2

theorem Sound.streamChannel {bufferSize : Nat} (h : streamChannel bufferSize = .ok s) : Sound s := by
  unfold Http.streamChannel at h
  split_ifs at h
  cases h
  exact ⟨fun _ => rfl, List.prefix_rfl, nofun, rfl⟩

theorem withHandle_eq_some {handle : Nat} {f : Producer → Option StreamState}
    (h : s.withHandle handle f = some t) :
    ∃ p, s.producers[handle]? = some p ∧ f p = some t ∧ ¬ s.allDropped := by
  unfold withHandle at h
  cases hp : s.producers[handle]? with
  | none =>
    rw [hp] at h
    cases h
  | some p =>
    rw [hp] at h
    obtain ⟨hlive, heq⟩ := Option.ite_none_right_eq_some.mp h
    refine ⟨p, rfl, heq, fun hall => ?_⟩
    rw [hall p (List.mem_of_getElem? hp)] at hlive
    cases hlive

/-- While a producer is left, it does not matter which there are. -/
theorem Sound.withProducers (h : Sound s) (hlive : ¬ s.allDropped) (producers : List Producer) :
    Sound { s with producers := producers } := by
  refine ⟨h.balance, h.inOrder, fun hended => ?_, h.final⟩
  obtain ⟨hyielded, hend⟩ := h.ended hended
  exact ⟨hyielded, .inl (hend.resolve_right hlive)⟩

/-- A chunk that is accepted while the flag is clear keeps the balance. -/
theorem Sound.push (h : Sound s) (hlive : ¬ s.allDropped) (hclosed : s.closed = true → ¬ s.hasRoom)
    (producers : List Producer) (chunk : List UInt8) :
    Sound (StreamState.push { s with producers := producers } chunk) := by
  unfold StreamState.push
  split_ifs with hroom
  · have hopen : s.closed = false := by
      rw [← Bool.not_eq_true]
      exact fun hc => hclosed hc hroom
    refine ⟨fun hdropped => ?_, h.inOrder.trans (List.prefix_append ..), fun hended => ?_, ?_⟩
    · change s.accepted ++ [chunk] = s.yielded ++ (s.queue ++ [chunk])
      rw [h.balance hdropped, List.append_assoc]
    · rcases (h.ended hended).2 with hc | hall
      · rw [hopen] at hc
        cases hc
      · exact absurd hall hlive
    · have hfinal := h.final
      rw [hopen] at hfinal
      change s.acceptedByClose = if s.closed = true then _ else none
      rw [hfinal, hopen]
      rfl
  · exact h.withProducers hlive producers

theorem Sound.setClosed (h : Sound s) : Sound s.setClosed := by
  refine ⟨h.balance, h.inOrder, fun hended => ⟨(h.ended hended).1, .inl rfl⟩, ?_⟩
  change some (s.acceptedByClose.getD s.accepted) = some s.accepted
  rw [h.final]
  split_ifs <;> rfl

theorem Sound.receive (h : Sound s) (hdropped : s.dropped = false) (hreceive : s.receive = some t) :
    Sound t := by
  have hbalance := h.balance hdropped
  unfold StreamState.receive at hreceive
  cases hqueue : s.queue with
  | nil =>
    rw [hqueue] at hreceive hbalance
    rw [List.append_nil] at hbalance
    obtain ⟨hall, heq⟩ := Option.ite_none_right_eq_some.mp hreceive
    cases heq
    refine ⟨fun _ => ?_, h.inOrder, fun _ => ⟨hbalance.symm, .inr hall⟩, h.final⟩
    rw [List.append_nil]
    exact hbalance
  | cons chunk queue =>
    rw [hqueue] at hreceive hbalance
    cases hreceive
    have hsplit : s.accepted = s.yielded ++ [chunk] ++ queue := by
      rw [hbalance, List.append_assoc]
      rfl
    refine ⟨fun _ => hsplit, ⟨queue, hsplit.symm⟩, fun hended => ?_, h.final⟩
    -- a body that has ended has left nothing in the queue
    have hnil : s.yielded = s.yielded ++ chunk :: queue := (h.ended hended).1.trans hbalance
    exact absurd (List.self_eq_append_right.mp hnil) (List.cons_ne_nil _ _)

theorem Sound.step {action : StreamAction K} (h : Sound s) (hin : s.InTime action)
    (hstep : s.step bytes action = some t) : Sound t := by
  cases action with
  | call handle k =>
    obtain ⟨p, -, hf, hlive⟩ := withHandle_eq_some hstep
    split_ifs at hf
    · cases hf
      exact h
    · cases hf
      exact h.withProducers hlive _
  | trySend handle i =>
    obtain ⟨p, -, hf, hlive⟩ := withHandle_eq_some hstep
    cases hchunk : p.waiting[i]? with
    | none =>
      rw [hchunk] at hf
      cases hf
    | some chunk =>
      rw [hchunk] at hf
      cases hf
      exact h.push hlive hin _ chunk
  | close handle =>
    obtain ⟨p, -, hf, -⟩ := withHandle_eq_some hstep
    cases hf
    exact h.setClosed
  | clone handle =>
    obtain ⟨p, -, hf, hlive⟩ := withHandle_eq_some hstep
    cases hf
    exact h.withProducers hlive _
  | drop handle =>
    obtain ⟨p, -, hf, hlive⟩ := withHandle_eq_some hstep
    obtain ⟨-, heq⟩ := Option.ite_none_right_eq_some.mp hf
    cases heq
    exact h.withProducers hlive _
  | poll =>
    obtain ⟨hguard, heq⟩ := Option.ite_none_left_eq_some.mp hstep
    rw [Bool.or_eq_true, not_or, Bool.not_eq_true] at hguard
    split_ifs at heq with hclosed
    · cases heq
      -- the poll ends the body, in time only if nothing is queued any more
      have hbalance := h.balance hguard.1
      rw [hin hclosed, List.append_nil] at hbalance
      exact ⟨h.balance, h.inOrder, fun _ => ⟨hbalance.symm, .inl hclosed⟩, h.final⟩
    · cases heq
      exact ⟨h.balance, h.inOrder, h.ended, h.final⟩
  | recv =>
    obtain ⟨hguard, hreceive⟩ := Option.ite_none_left_eq_some.mp hstep
    rw [Bool.or_eq_true, not_or, Bool.not_eq_true] at hguard
    exact h.receive hguard.1 hreceive
  | recvPending =>
    obtain ⟨-, heq⟩ := Option.ite_none_left_eq_some.mp hstep
    cases heq
    exact ⟨h.balance, h.inOrder, h.ended, h.final⟩
  | dropBody =>
    obtain ⟨-, heq⟩ := Option.ite_none_left_eq_some.mp hstep
    cases heq
    exact ⟨nofun, h.inOrder, h.ended, h.final⟩

/-- A step out of time shows in the state it leads to. -/
theorem inTime_of_faithful {action : StreamAction K} (h : Sound s)
    (hstep : s.step bytes action = some t) (ht : Faithful t) : s.InTime action := by
  cases action with
  | poll =>
    intro hclosed
    obtain ⟨hguard, heq⟩ := Option.ite_none_left_eq_some.mp hstep
    rw [Bool.or_eq_true, not_or, Bool.not_eq_true] at hguard
    rw [if_pos hclosed] at heq
    cases heq
    have hall : s.yielded = s.yielded ++ s.queue := (ht.complete rfl).trans (h.balance hguard.1)
    exact List.self_eq_append_right.mp hall
  | trySend handle i =>
    intro hclosed hroom
    obtain ⟨p, -, hf, -⟩ := withHandle_eq_some hstep
    cases hchunk : p.waiting[i]? with
    | none =>
      rw [hchunk] at hf
      cases hf
    | some chunk =>
      rw [hchunk] at hf
      cases hf
      have hfinal := h.final
      rw [if_pos hclosed] at hfinal
      have hroom' : (s.setProducer handle ⟨p.live, p.waiting.eraseIdx i⟩).hasRoom := hroom
      unfold StreamState.push at ht
      rw [if_pos hroom'] at ht
      have hlate : s.accepted ++ [chunk] = s.accepted := ht.final s.accepted hfinal
      exact absurd (List.append_right_eq_self.mp hlate) (List.cons_ne_nil _ _)
  | _ => trivial

theorem always_faithful_iff (h : Sound s) (actions : List (StreamAction K)) :
    Always (step bytes) Faithful s actions ↔
      Along (step bytes) (fun s action => ∀ t, s.step bytes action = some t → s.InTime action) s
        actions :=
  always_iff_along_of_inv Sound h (fun _ => Sound.faithful)
    (fun _ _ _ hs hin hstep => hs.step hin hstep)
    (fun _ _ _ hs hstep ht => inTime_of_faithful hs hstep ht)

/-- For both kinds of streams: the runs in which the body delivers what was accepted are those
whose steps are all in time. -/
theorem streams_faithful_iff (bufferSize : Nat) :
    (∀ s, SSEBody.new bufferSize = .ok s → ∀ actions,
      Always (step SSECall.bytes) Faithful s actions ↔
        Along (step SSECall.bytes)
          (fun s action => ∀ t, s.step SSECall.bytes action = some t → s.InTime action) s actions) ∧
      ∀ s, StreamingBody.new bufferSize = .ok s → ∀ actions,
        Always (step WriteCall.bytes) Faithful s actions ↔
          Along (step WriteCall.bytes)
            (fun s action => ∀ t, s.step WriteCall.bytes action = some t → s.InTime action) s
            actions :=
  ⟨fun _ h => always_faithful_iff (.streamChannel h),
    fun _ h => always_faithful_iff (.streamChannel h)⟩

/-- The body asks again before the stream is closed, and so gets the chunk. -/
def drainedRun : List (StreamAction SSECall) :=
  [.call 0 (.sendData "a"), .trySend 0 0, .poll, .recv, .close 0, .poll]

theorem drainedRun_faithful :
    ∃ s t, SSEBody.new 4 = .ok s ∧ exec (step SSECall.bytes) s drainedRun = some t ∧
      t.ended = true ∧ t.yielded = [(SSEEvent.ofData "a").toBytes] ∧
      Always (step SSECall.bytes) Faithful s drainedRun := by
  refine ⟨_, _, rfl, rfl, rfl, rfl, ((streams_faithful_iff 4).1 _ rfl drainedRun).mpr ?_⟩
  exact Along.mono (C := InTime) (fun _ _ h _ _ => h) (by decide +kernel)

/-- A chunk that is queued when the stream is closed is lost. -/
theorem queued_chunk_lost :
    ∃ s t, SSEBody.new 4 = .ok s ∧
      exec (step SSECall.bytes) s [.call 0 (.sendData "a"), .trySend 0 0, .close 0, .poll] = some t ∧
      ¬ Faithful t := by
  refine ⟨_, _, rfl, rfl, fun h => ?_⟩
  have hlost := h.complete rfl
  cases hlost

end StreamState

end Hypern.Http
