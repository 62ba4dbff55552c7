import Mathlib.Logic.Function.Iterate
import Hypern.Lib.Threads

/-! `websocket.py`: sockets with a queue in each direction, and rooms that put messages on the
queues of their members. A call of `receive` waits, takes a message and goes on with it in three
steps; the other coroutines never wait, as the queues are unbounded. -/

namespace Hypern.Http

open Lib

inductive WebSocketState
  | connecting | connected | disconnecting | disconnected
  deriving DecidableEq

def WebSocketState.value : WebSocketState → String
  | .connecting => "connecting"
  | .connected => "connected"
  | .disconnecting => "disconnecting"
  | .disconnected => "disconnected"

inductive WebSocketData
  | text (data : String)
  | bytes (data : List UInt8)
  deriving DecidableEq

structure WebSocketMessage where
  type : String
  data : WebSocketData
  deriving DecidableEq

inductive WebSocketExc
  | disconnect (code : Int) (reason : String)
  | error (message : String)

/-- A call of `receive` that waits for a message, or has taken one (`None` from
`feed_disconnect`) and not gone on yet. -/
inductive Receiving
  | waiting
  | took (msg : Option WebSocketMessage)

/-- `put` is everything that was ever put on `_send_queue`, and `drained` what was taken off. -/
structure WebSocket where
  id : String
  state : WebSocketState
  recvQueue : List (Option WebSocketMessage)
  sendQueue : List (Option WebSocketMessage)
  closeCode : Int
  closeReason : String
  receiving : List Receiving
  put : List (Option WebSocketMessage)
  drained : List (Option WebSocketMessage)

namespace WebSocket

def new (id : String) : WebSocket := ⟨id, .connecting, [], [], 1000, "", [], [], []⟩

variable (ws : WebSocket)

def isConnected : Bool := ws.state == .connected

def assertConnected (action : String) : Except WebSocketExc Unit :=
  if ws.state ≠ .connected then
    .error (.error ("Cannot " ++ action ++ ": WebSocket is " ++ ws.state.value))
  else .ok ()

/-- `_send_queue.put`. -/
def putSend (item : Option WebSocketMessage) : WebSocket :=
  { ws with sendQueue := ws.sendQueue ++ [item], put := ws.put ++ [item] }

def accept : Except WebSocketExc Unit × WebSocket :=
  if ws.state ≠ .connecting then
    (.error (.error ("Cannot accept: state is " ++ ws.state.value)), ws)
  else (.ok (), { ws with state := .connected })

def close (code : Int) (reason : String) : WebSocket :=
  if ws.state = .disconnecting ∨ ws.state = .disconnected then ws
  else
    let ws := { ws with state := .disconnecting, closeCode := code, closeReason := reason }
    { ws.putSend none with state := .disconnected }

def send (message : WebSocketMessage) : Except WebSocketExc Unit × WebSocket :=
  match ws.assertConnected "send" with
  | .error e => (.error e, ws)
  | .ok () => (.ok (), ws.putSend (some message))

/-- `receive` up to where it waits. -/
def receive : Except WebSocketExc Unit × WebSocket :=
  match ws.assertConnected "receive" with
  | .error e => (.error e, ws)
  | .ok () => (.ok (), { ws with receiving := ws.receiving ++ [.waiting] })

/-- A call that waits takes the first message of `_recv_queue`. -/
def take (call : Nat) : WebSocket :=
  match ws.receiving[call]?, ws.recvQueue with
  | some .waiting, msg :: queue =>
    { ws with receiving := ws.receiving.set call (.took msg), recvQueue := queue }
  | _, _ => ws

/-- `receive` from where it has its message. -/
def resume (call : Nat) : Option (Except WebSocketExc WebSocketMessage) × WebSocket :=
  match ws.receiving[call]? with
  | some (.took none) =>
    let ws := { ws with receiving := ws.receiving.eraseIdx call, state := .disconnected }
    (some (.error (.disconnect ws.closeCode ws.closeReason)), ws)
  | some (.took (some msg)) =>
    (some (.ok msg), { ws with receiving := ws.receiving.eraseIdx call })
  | _ => (none, ws)

/-- A call of `receive` that ends by its timeout or is cancelled. -/
def abandon (call : Nat) : WebSocket := { ws with receiving := ws.receiving.eraseIdx call }

def feedMessage (msgType : String) (data : WebSocketData) : WebSocket :=
  { ws with recvQueue := ws.recvQueue ++ [some ⟨msgType, data⟩] }

def feedDisconnect (code : Int) (reason : String) : WebSocket :=
  { ws with closeCode := code, closeReason := reason, recvQueue := ws.recvQueue ++ [none] }

/-- `drain_send_queue` on a queue that is not empty; on an empty one it waits. -/
def drainSendQueue : WebSocket :=
  match ws.sendQueue with
  | item :: queue => { ws with sendQueue := queue, drained := ws.drained ++ [item] }
  | [] => ws

/-- What a broadcast does to one member. -/
def offer (msg : WebSocketMessage) : WebSocket :=
  if ws.isConnected then ws.putSend (some msg) else ws

end WebSocket

/-! ## Rooms -/

/-- `_connections`, as ids and the sockets they stand for, in the order of the dict. -/
structure WebSocketRoom where
  connections : List (String × Nat)

namespace WebSocketRoom

variable (room : WebSocketRoom)

def join (id : String) (socket : Nat) : WebSocketRoom :=
  if id ∈ room.connections.map Prod.fst then
    ⟨room.connections.map fun c => if c.1 = id then (id, socket) else c⟩
  else ⟨room.connections ++ [(id, socket)]⟩

def leave (id : String) : WebSocketRoom := ⟨room.connections.filter (·.1 ≠ id)⟩

/-- The loop of `broadcast` and of `broadcast_bytes`. -/
def sendAll (msg : WebSocketMessage) (exclude : List String) (sockets : List WebSocket) :
    List WebSocket :=
  room.connections.foldl
    (fun sockets c => if c.1 ∈ exclude then sockets else sockets.modify c.2 (·.offer msg)) sockets

def broadcast (data : String) (exclude : List String) (sockets : List WebSocket) : List WebSocket :=
  room.sendAll ⟨"text", .text data⟩ exclude sockets

def broadcastBytes (data : List UInt8) (exclude : List String) (sockets : List WebSocket) :
    List WebSocket :=
  room.sendAll ⟨"bytes", .bytes data⟩ exclude sockets

def closeAll (code : Int) (reason : String) (sockets : List WebSocket) :
    WebSocketRoom × List WebSocket :=
  (⟨[]⟩, room.connections.foldl (fun sockets c => sockets.modify c.2 (·.close code reason)) sockets)

end WebSocketRoom

/-! ## Runs -/

structure WebSockets where
  sockets : List WebSocket
  rooms : List WebSocketRoom

inductive WebSocketAction
  | newSocket (id : String)
  | newRoom
  | accept (socket : Nat)
  | close (socket : Nat) (code : Int) (reason : String)
  | send (socket : Nat) (message : WebSocketMessage)
  | receive (socket : Nat)
  | take (socket call : Nat)
  | resume (socket call : Nat)
  | abandon (socket call : Nat)
  | feedMessage (socket : Nat) (msgType : String) (data : WebSocketData)
  | feedDisconnect (socket : Nat) (code : Int) (reason : String)
  | drainSendQueue (socket : Nat)
  | join (room socket : Nat)
  | leave (room socket : Nat)
  | broadcast (room : Nat) (data : String) (exclude : List String)
  | broadcastBytes (room : Nat) (data : List UInt8) (exclude : List String)
  | closeAll (room : Nat) (code : Int) (reason : String)

namespace WebSockets

def empty : WebSockets := ⟨[], []⟩

variable (s : WebSockets)

def onSocket (socket : Nat) (f : WebSocket → WebSocket) : WebSockets :=
  { s with sockets := s.sockets.modify socket f }

/-- A room's call with one of the sockets, which it knows by its id. -/
def onRoom (room socket : Nat) (f : WebSocketRoom → String → WebSocketRoom) : WebSockets :=
  match s.sockets[socket]? with
  | some ws => { s with rooms := s.rooms.modify room (f · ws.id) }
  | none => s

def step : WebSocketAction → Option WebSockets
  | .newSocket id => some { s with sockets := s.sockets ++ [.new id] }
  | .newRoom => some { s with rooms := s.rooms ++ [⟨[]⟩] }
  | .accept socket => some (s.onSocket socket fun ws => ws.accept.2)
  | .close socket code reason => some (s.onSocket socket (·.close code reason))
  | .send socket message => some (s.onSocket socket fun ws => (ws.send message).2)
  | .receive socket => some (s.onSocket socket fun ws => ws.receive.2)
  | .take socket call => some (s.onSocket socket (·.take call))
  | .resume socket call => some (s.onSocket socket fun ws => (ws.resume call).2)
  | .abandon socket call => some (s.onSocket socket (·.abandon call))
  | .feedMessage socket msgType data => some (s.onSocket socket (·.feedMessage msgType data))
  | .feedDisconnect socket code reason => some (s.onSocket socket (·.feedDisconnect code reason))
  | .drainSendQueue socket => some (s.onSocket socket (·.drainSendQueue))
  | .join room socket => some (s.onRoom room socket (·.join · socket))
  | .leave room socket => some (s.onRoom room socket (·.leave ·))
  | .broadcast room data exclude =>
    (s.rooms[room]?).map fun r => { s with sockets := r.broadcast data exclude s.sockets }
  | .broadcastBytes room data exclude =>
    (s.rooms[room]?).map fun r => { s with sockets := r.broadcastBytes data exclude s.sockets }
  | .closeAll room code reason =>
    (s.rooms[room]?).map fun r =>
      let closed := r.closeAll code reason s.sockets
      ⟨closed.2, s.rooms.set room closed.1⟩

end WebSockets

/-! ## The send side -/

namespace WebSocket

/-- The sentinel has been put exactly once if the socket is disconnected and never otherwise,
nothing follows it, and a transport that goes on draining gets it. -/
structure SendSide (ws : WebSocket) : Prop where
  sentinel : ws.put.count none = if ws.state = .disconnected then 1 else 0
  last : ∀ before after, ws.put = before ++ none :: after → after = []
  learns : ws.state = .disconnected → none ∈ (drainSendQueue^[ws.sendQueue.length] ws).drained

/-- The books behind it. -/
structure Books (ws : WebSocket) : Prop where
  balance : ws.drained ++ ws.sendQueue = ws.put
  closed : ws.state = .disconnected →
    ∃ msgs : List WebSocketMessage, ws.put = msgs.map some ++ [none]
  opened : ws.state ≠ .disconnected → none ∉ ws.put

theorem none_not_mem_map_some {α : Type*} (l : List α) : none ∉ l.map some := by
  rintro h
  obtain ⟨x, -, hx⟩ := List.mem_map.mp h
  cases hx

theorem exists_map_some {α : Type*} {l : List (Option α)} (h : none ∉ l) :
    ∃ items : List α, l = items.map some := by
  induction l with
  | nil => exact ⟨[], rfl⟩
  | cons item l ih =>
    rw [List.mem_cons, not_or] at h
    obtain ⟨items, rfl⟩ := ih h.2
    obtain ⟨x, rfl⟩ := Option.ne_none_iff_exists'.mp (Ne.symm h.1)
    exact ⟨x :: items, rfl⟩

theorem drained_drainAll (n : Nat) (ws : WebSocket) (h : ws.sendQueue.length = n) :
    (drainSendQueue^[n] ws).drained = ws.drained ++ ws.sendQueue := by
  induction n generalizing ws with
  | zero =>
    rw [List.eq_nil_of_length_eq_zero h, List.append_nil]
    rfl
  | succ n ih =>
    obtain ⟨item, queue, hqueue⟩ := List.exists_cons_of_length_eq_add_one h
    have hstep : ws.drainSendQueue =
        { ws with sendQueue := queue, drained := ws.drained ++ [item] } := by
      unfold drainSendQueue
      rw [hqueue]
    rw [hqueue, List.length_cons] at h
    rw [Function.iterate_succ_apply, hstep, ih _ (Nat.succ.inj h), hqueue]
    exact List.append_assoc ..

theorem Books.sendSide {ws : WebSocket} (h : Books ws) : SendSide ws := by
  by_cases hstate : ws.state = .disconnected
  · obtain ⟨msgs, hput⟩ := h.closed hstate
    refine ⟨?_, fun before after heq => ?_, fun _ => ?_⟩
    · rw [if_pos hstate, hput, List.count_append, List.count_eq_zero_of_not_mem
        (none_not_mem_map_some msgs)]
      rfl
    · -- a sentinel with something after it would be among the messages
      rcases List.eq_nil_or_concat after with rfl | ⟨init, item, rfl⟩
      · rfl
      · rw [hput, List.concat_eq_append, ← List.cons_append, ← List.append_assoc] at heq
        have hmsgs := (List.append_inj' heq rfl).1
        refine absurd ?_ (none_not_mem_map_some msgs)
        rw [hmsgs]
        exact List.mem_append_right _ List.mem_cons_self
    · rw [drained_drainAll _ ws rfl, h.balance, hput]
      exact List.mem_append_right _ List.mem_cons_self
  · refine ⟨?_, fun before after heq => ?_, fun hdis => absurd hdis hstate⟩
    · rw [if_neg hstate]
      exact List.count_eq_zero_of_not_mem (h.opened hstate)
    · refine absurd ?_ (h.opened hstate)
      rw [heq]
      exact List.mem_append_right _ List.mem_cons_self

/-- What an operation does to a socket: a disconnected one stays so, and the books are kept if the
operation is allowed. -/
structure Keeps (allowed : Prop) (ws ws' : WebSocket) : Prop where
  stays : ws.state = .disconnected → ws'.state = .disconnected
  books : allowed → Books ws → Books ws'

namespace Keeps

variable {allowed : Prop} {ws : WebSocket}

theorem refl (ws : WebSocket) : Keeps allowed ws ws := ⟨fun h => h, fun _ h => h⟩

theorem trans {ws' ws'' : WebSocket} (h : Keeps allowed ws ws') (h' : Keeps allowed ws' ws'') :
    Keeps allowed ws ws'' :=
  ⟨h'.stays ∘ h.stays, fun ha hb => h'.books ha (h.books ha hb)⟩

/-- An operation that concerns neither the state nor the send queue. -/
theorem of_same {ws' : WebSocket} (hstate : ws'.state = ws.state)
    (hqueue : ws'.sendQueue = ws.sendQueue) (hput : ws'.put = ws.put)
    (hdrained : ws'.drained = ws.drained) : Keeps allowed ws ws' := by
  refine ⟨fun h => hstate.trans h, fun _ hb => ⟨?_, fun h => ?_, fun h => ?_⟩⟩
  · rw [hqueue, hput, hdrained]
    exact hb.balance
  · rw [hput]
    exact hb.closed (hstate.symm.trans h)
  · rw [hput]
    exact hb.opened (hstate ▸ h)

theorem putSome (h : ws.state ≠ .disconnected) (msg : WebSocketMessage) :
    Keeps allowed ws (ws.putSend (some msg)) := by
  refine ⟨fun h => h, fun _ hb => ⟨?_, fun hdis => absurd hdis h, fun _ hmem => ?_⟩⟩
  · change ws.drained ++ (ws.sendQueue ++ [some msg]) = ws.put ++ [some msg]
    rw [← List.append_assoc, hb.balance]
  · rcases List.mem_append.mp hmem with hold | hnew
    · exact hb.opened h hold
    · cases List.mem_singleton.mp hnew

theorem accept (ws : WebSocket) : Keeps allowed ws ws.accept.2 := by
  unfold WebSocket.accept
  split_ifs with h
  · exact refl ws
  · have hstate : ws.state = .connecting := not_not.mp h
    have hne : ws.state ≠ .disconnected := by
      rw [hstate]
      decide
    exact ⟨fun hdis => absurd hdis hne, fun _ hb => ⟨hb.balance, nofun, fun _ => hb.opened hne⟩⟩

theorem close (ws : WebSocket) (code : Int) (reason : String) :
    Keeps allowed ws (ws.close code reason) := by
  unfold WebSocket.close
  split_ifs with h
  · exact refl ws
  · have hne : ws.state ≠ .disconnected := fun hdis => h (.inr hdis)
    refine ⟨fun _ => rfl, fun _ hb => ⟨?_, fun _ => ?_, fun hopen => absurd rfl hopen⟩⟩
    · change ws.drained ++ (ws.sendQueue ++ [none]) = ws.put ++ [none]
      rw [← List.append_assoc, hb.balance]
    · -- nothing that was put before is the sentinel
      obtain ⟨msgs, hmsgs⟩ := exists_map_some (hb.opened hne)
      exact ⟨msgs, congrArg (· ++ [none]) hmsgs⟩

theorem send (ws : WebSocket) (message : WebSocketMessage) : Keeps allowed ws (ws.send message).2 := by
  unfold WebSocket.send assertConnected
  split_ifs with h
  · exact refl ws
  · refine putSome (fun hdis => ?_) message
    rw [not_not.mp h] at hdis
    cases hdis

theorem offer (ws : WebSocket) (msg : WebSocketMessage) : Keeps allowed ws (ws.offer msg) := by
  unfold WebSocket.offer isConnected
  split_ifs with h
  · refine putSome (fun hdis => ?_) msg
    rw [beq_iff_eq.mp h] at hdis
    cases hdis
  · exact refl ws

theorem receive (ws : WebSocket) : Keeps allowed ws ws.receive.2 := by
  unfold WebSocket.receive assertConnected
  split_ifs
  · exact refl ws
  · exact of_same rfl rfl rfl rfl

theorem take (ws : WebSocket) (call : Nat) : Keeps allowed ws (ws.take call) := by
  unfold WebSocket.take
  split
  · exact of_same rfl rfl rfl rfl
  · exact refl ws

theorem drainSendQueue (ws : WebSocket) : Keeps allowed ws ws.drainSendQueue := by
  unfold WebSocket.drainSendQueue
  split
  · rename_i item queue hqueue
    refine ⟨fun h => h, fun _ hb => ⟨?_, hb.closed, hb.opened⟩⟩
    change ws.drained ++ [item] ++ queue = ws.put
    rw [← hb.balance, hqueue, List.append_assoc]
    rfl
  · exact refl ws

/-- The one operation that disconnects a socket and puts no sentinel. -/
theorem resume {call : Nat}
    (hallowed : allowed → ws.receiving[call]? = some (.took none) → ws.state = .disconnected) :
    Keeps allowed ws (ws.resume call).2 := by
  unfold WebSocket.resume
  split
  · rename_i htook
    refine ⟨fun _ => rfl, fun ha hb => ⟨hb.balance, fun _ => ?_, fun hopen => absurd rfl hopen⟩⟩
    exact hb.closed (hallowed ha htook)
  · exact of_same rfl rfl rfl rfl
  · exact refl ws

end Keeps

end WebSocket

namespace WebSockets

/-- No `receive` goes on with the marker of `feed_disconnect` on a socket that has not been
closed. -/
def ClosedFirst (s : WebSockets) : WebSocketAction → Prop
  | .resume socket call => ∀ ws, s.sockets[socket]? = some ws →
      ws.receiving[call]? = some (.took none) → ws.state = .disconnected
  | _ => True

/-- Sockets that are disconnected before a step are so after it. -/
def StaysDisconnected (s t : WebSockets) : Prop :=
  ∀ (i : Nat) ws, s.sockets[i]? = some ws → ws.state = .disconnected →
    ∃ ws', t.sockets[i]? = some ws' ∧ ws'.state = .disconnected

variable {s t : WebSockets} {action : WebSocketAction}

open WebSocket (Keeps Books SendSide)

theorem keeps_onSocket {allowed : Prop} (socket : Nat) {f : WebSocket → WebSocket}
    (hf : ∀ ws, s.sockets[socket]? = some ws → Keeps allowed ws (f ws)) :
    List.Forall₂ (Keeps allowed) s.sockets (s.onSocket socket f).sockets :=
  forall₂_modify Keeps.refl hf

theorem keeps_fold {α : Type*} {allowed : Prop} (f : List WebSocket → α → List WebSocket)
    (hf : ∀ sockets a, List.Forall₂ (Keeps allowed) sockets (f sockets a)) (l : List α)
    (sockets : List WebSocket) : List.Forall₂ (Keeps allowed) sockets (l.foldl f sockets) := by
  induction l generalizing sockets with
  | nil => exact List.forall₂_same.mpr fun ws _ => Keeps.refl ws
  | cons a l ih => exact forall₂_trans Keeps.trans (hf sockets a) (ih (f sockets a))

theorem keeps_sendAll {allowed : Prop} (room : WebSocketRoom) (msg : WebSocketMessage)
    (exclude : List String) (sockets : List WebSocket) :
    List.Forall₂ (Keeps allowed) sockets (room.sendAll msg exclude sockets) := by
  refine keeps_fold _ (fun sockets c => ?_) room.connections sockets
  split_ifs
  · exact List.forall₂_same.mpr fun ws _ => Keeps.refl ws
  · exact forall₂_modify Keeps.refl fun ws _ => Keeps.offer ws msg

theorem sockets_onRoom (room socket : Nat) (f : WebSocketRoom → String → WebSocketRoom) :
    (s.onRoom room socket f).sockets = s.sockets := by
  unfold onRoom
  cases s.sockets[socket]? <;> rfl

/-- Every step does to each socket what keeps its books, if the step is allowed, and may add a
new one. -/
theorem step_keeps (hstep : s.step action = some t) :
    ∃ kept fresh, t.sockets = kept ++ fresh ∧
      List.Forall₂ (Keeps (s.ClosedFirst action)) s.sockets kept ∧ ∀ ws ∈ fresh, Books ws := by
  have hsame : List.Forall₂ (Keeps (s.ClosedFirst action)) s.sockets s.sockets :=
    List.forall₂_same.mpr fun ws _ => Keeps.refl ws
  have hkept : List.Forall₂ (Keeps (s.ClosedFirst action)) s.sockets t.sockets →
      ∃ kept fresh, t.sockets = kept ++ fresh ∧
        List.Forall₂ (Keeps (s.ClosedFirst action)) s.sockets kept ∧ ∀ ws ∈ fresh, Books ws :=
    fun h => ⟨t.sockets, [], (List.append_nil _).symm, h, nofun⟩
  cases action with
  | newSocket id =>
    cases hstep
    refine ⟨s.sockets, [.new id], rfl, hsame, fun ws hws => ?_⟩
    rw [List.mem_singleton.mp hws]
    exact ⟨rfl, nofun, fun _ => List.not_mem_nil⟩
  | newRoom =>
    cases hstep
    exact hkept hsame
  | accept socket =>
    cases hstep
    exact hkept (keeps_onSocket socket fun ws _ => Keeps.accept ws)
  | close socket code reason =>
    cases hstep
    exact hkept (keeps_onSocket socket fun ws _ => Keeps.close ws code reason)
  | send socket message =>
    cases hstep
    exact hkept (keeps_onSocket socket fun ws _ => Keeps.send ws message)
  | receive socket =>
    cases hstep
    exact hkept (keeps_onSocket socket fun ws _ => Keeps.receive ws)
  | take socket call =>
    cases hstep
    exact hkept (keeps_onSocket socket fun ws _ => Keeps.take ws call)
  | resume socket call =>
    cases hstep
    exact hkept (keeps_onSocket socket fun ws hws => Keeps.resume fun ha => ha ws hws)
  | abandon socket call =>
    cases hstep
    exact hkept (keeps_onSocket socket fun ws _ => Keeps.of_same rfl rfl rfl rfl)
  | feedMessage socket msgType data =>
    cases hstep
    exact hkept (keeps_onSocket socket fun ws _ => Keeps.of_same rfl rfl rfl rfl)
  | feedDisconnect socket code reason =>
    cases hstep
    exact hkept (keeps_onSocket socket fun ws _ => Keeps.of_same rfl rfl rfl rfl)
  | drainSendQueue socket =>
    cases hstep
    exact hkept (keeps_onSocket socket fun ws _ => Keeps.drainSendQueue ws)
  | join room socket =>
    cases hstep
    refine hkept ?_
    rw [sockets_onRoom]
    exact hsame
  | leave room socket =>
    cases hstep
    refine hkept ?_
    rw [sockets_onRoom]
    exact hsame
  | broadcast room data exclude =>
    obtain ⟨r, -, rfl⟩ := Option.map_eq_some_iff.mp hstep
    exact hkept (keeps_sendAll r _ exclude s.sockets)
  | broadcastBytes room data exclude =>
    obtain ⟨r, -, rfl⟩ := Option.map_eq_some_iff.mp hstep
    exact hkept (keeps_sendAll r _ exclude s.sockets)
  | closeAll room code reason =>
    obtain ⟨r, -, rfl⟩ := Option.map_eq_some_iff.mp hstep
    refine hkept (keeps_fold _ (fun sockets c => ?_) r.connections s.sockets)
    exact forall₂_modify Keeps.refl fun ws _ => Keeps.close ws code reason

theorem staysDisconnected_step (hstep : s.step action = some t) : StaysDisconnected s t := by
  obtain ⟨kept, fresh, heq, hkeeps, -⟩ := step_keeps hstep
  intro i ws hws hdis
  obtain ⟨ws', hws', hkeep⟩ := exists_of_forall₂ hkeeps hws
  refine ⟨ws', ?_, hkeep.stays hdis⟩
  rw [heq, List.getElem?_append_left (List.getElem?_eq_some_iff.mp hws').1]
  exact hws'

theorem books_step (h : ∀ ws ∈ s.sockets, Books ws) (hfirst : s.ClosedFirst action)
    (hstep : s.step action = some t) : ∀ ws ∈ t.sockets, Books ws := by
  obtain ⟨kept, fresh, heq, hkeeps, hfresh⟩ := step_keeps hstep
  rw [heq]
  refine List.forall_mem_append.mpr ⟨?_, hfresh⟩
  exact forall_mem_of_forall₂ hkeeps (fun hkeep => hkeep.books hfirst) h

/-- A socket that `receive` has disconnected has no sentinel. -/
theorem closedFirst_of_sendSide (h : ∀ ws ∈ s.sockets, Books ws) (hstep : s.step action = some t)
    (ht : ∀ ws ∈ t.sockets, SendSide ws) : s.ClosedFirst action := by
  cases action with
  | resume socket call =>
    intro ws hws htook
    by_contra hstate
    cases hstep
    have hws' : (s.sockets.modify socket fun ws => (ws.resume call).2)[socket]? =
        some (ws.resume call).2 := by
      rw [List.getElem?_modify, hws]
      exact congrArg some (if_pos rfl)
    have hsentinel := (ht _ (List.mem_of_getElem? hws')).sentinel
    unfold WebSocket.resume at hsentinel
    rw [htook] at hsentinel
    have hnone := (h ws (List.mem_of_getElem? hws)).opened hstate
    have hcount : ws.put.count none = 1 := hsentinel
    rw [List.count_eq_zero_of_not_mem hnone] at hcount
    cases hcount
  | _ => trivial

/-- The runs in which every send side is closed exactly once are those in which no socket is
disconnected by `receive`; disconnected sockets stay so in all. -/
theorem sendSide_iff_closedFirst (actions : List WebSocketAction) :
    Always step (fun s => ∀ ws ∈ s.sockets, SendSide ws) empty actions ∧
        Along step (fun s action => ∀ t, s.step action = some t → StaysDisconnected s t) empty
          actions ↔
      Along step (fun s action => ∀ t, s.step action = some t → s.ClosedFirst action) empty
        actions := by
  have hstays : Along step (fun s action => ∀ t, s.step action = some t → StaysDisconnected s t)
      empty actions :=
    .of_forall (fun _ _ _ _ hstep => staysDisconnected_step hstep) empty
  rw [and_iff_left hstays]
  refine always_iff_along_of_inv (fun s => ∀ ws ∈ s.sockets, Books ws) nofun ?_ ?_ ?_
  · exact fun s h ws hws => (h ws hws).sendSide
  · exact fun s action t h hfirst hstep => books_step h hfirst hstep
  · exact fun s action t h hstep ht => closedFirst_of_sendSide h hstep ht

/-- The remote end goes away: the handler learns of it, the send side does not. -/
theorem remote_disconnect_unseen :
    ∃ s, exec step empty [.newSocket "a", .accept 0, .receive 0, .feedDisconnect 0 1001 "going away",
        .take 0 0, .resume 0 0, .close 0 1000 ""] = some s ∧
      ¬ ∀ ws ∈ s.sockets, SendSide ws := by
  refine ⟨_, rfl, fun h => ?_⟩
  have hsentinel := (h _ (List.mem_of_getElem? (i := 0) rfl)).sentinel
  exact absurd hsentinel (by decide +kernel)

end WebSockets

end Hypern.Http
