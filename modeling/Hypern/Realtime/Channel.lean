import Mathlib.Data.Finset.Basic
import Hypern.Lib.Run
import Hypern.Lib.Table
import Hypern.Python.Object
import Hypern.Realtime.Exchange
import Hypern.Realtime.Presence
import Mathlib.Algebra.Group.Nat.Defs

/-! `channel.rs`: named channels with their subscribers, and the matcher that routes topics. The
handles that `subscribe` returns live in the exchange, beside the manager. -/

namespace Hypern.Realtime

open Lib Python

/-! ## Topics -/

structure TopicMatcher where
  patterns : Table String (Finset String)

namespace TopicMatcher

def new : TopicMatcher := ⟨∅⟩

def clients (m : TopicMatcher) (pattern : String) : Finset String :=
  (m.patterns.lookup pattern).getD ∅

def subscribe (m : TopicMatcher) (pattern client : String) : TopicMatcher :=
  ⟨m.patterns.insert pattern (insert client (m.clients pattern))⟩

def unsubscribe (m : TopicMatcher) (pattern client : String) : Bool × TopicMatcher :=
  match m.patterns.lookup pattern with
  | none => (false, m)
  | some clients =>
    let entry := clients.erase client
    (decide (client ∈ clients),
      ⟨if entry = ∅ then m.patterns.erase pattern else m.patterns.insert pattern entry⟩)

/-- The loop of `pattern_matches` over the two lists of segments. -/
def segmentsMatch : List (List Char) → List (List Char) → Bool
  | part :: pattern, segment :: topic =>
    if part = ['#'] then true
    else if part = ['*'] then segmentsMatch pattern topic
    else if part ≠ segment then false
    else segmentsMatch pattern topic
  | [], [] => true
  | _, _ => false

def patternMatches (pattern topic : String) : Bool :=
  pattern == topic || segmentsMatch (pattern.toList.splitOn ':') (topic.toList.splitOn ':')

end TopicMatcher

/-! ## Channels -/

/-- `ring` is the channel of the exchange that `sender` sends to. -/
structure ChannelInner where
  ring : Nat
  subscribers : Finset String
  totalMessages : Nat
  droppedMessages : Nat
  metadata : Metadata

/-- The name of the channel and of the client that a `Subscriber` was made for. -/
abbrev SubscriberLabel := String × String

structure ChannelManager where
  channels : Table String ChannelInner
  defaultBufferSize : Nat
  topicMatcher : TopicMatcher
  exchange : Exchange SubscriberLabel String

def keyError (message : String) : PyExc :=
  ⟨["KeyError", "LookupError", "Exception", "BaseException", "object"], message⟩

def panicException (message : String) : PyExc :=
  ⟨["PanicException", "BaseException", "object"], message⟩

def noSuchChannel (name : String) : PyExc := keyError ("Channel '" ++ name ++ "' does not exist")

/-- What `broadcast::channel` makes of the size it is asked for. -/
def ringCapacity (bufferSize : Nat) : Except PyExc { n : Nat // 0 < n } :=
  if bufferSize = 0 then .error (panicException "broadcast channel capacity cannot be zero")
  else if (2 ^ 64 - 1) / 2 < bufferSize then
    .error (panicException "broadcast channel capacity exceeded `usize::MAX / 2`")
  else .ok ⟨bufferSize.nextPowerOfTwo, Nat.pos_of_isPowerOfTwo (Nat.isPowerOfTwo_nextPowerOfTwo _)⟩

theorem capacity_pos (capacity : { n : Nat // 0 < n }) : 0 < capacity.1 := capacity.2

namespace ChannelManager

def new (defaultBufferSize : Nat) : ChannelManager := ⟨∅, defaultBufferSize, .new, .empty⟩

def createChannel (s : ChannelManager) (name : String) (bufferSize : Option Nat)
    (metadata : Option Metadata) : Except PyExc Bool × ChannelManager :=
  if name ∈ s.channels then (.ok false, s)
  else
    match ringCapacity (bufferSize.getD s.defaultBufferSize) with
    | .error e => (.error e, s)
    | .ok capacity =>
      (.ok true,
        { s with
          exchange := s.exchange.channel capacity.1 (capacity_pos capacity)
          channels := s.channels.insert name
            ⟨s.exchange.rings.length, ∅, 0, 0, metadata.getD ∅⟩ })

/-- Dropping a `ChannelInner` drops its sender. -/
def removeChannel (s : ChannelManager) (name : String) : Bool × ChannelManager :=
  match s.channels.lookup name with
  | some inner =>
    (true, { s with channels := s.channels.erase name, exchange := s.exchange.close inner.ring })
  | none => (false, s)

def subscribe (s : ChannelManager) (name client : String) : Except PyExc Unit × ChannelManager :=
  match s.channels.lookup name with
  | none => (.error (noSuchChannel name), s)
  | some inner =>
    (.ok (),
      { s with
        channels := s.channels.insert name
          { inner with subscribers := insert client inner.subscribers }
        exchange := s.exchange.subscribe inner.ring (name, client)
        topicMatcher := s.topicMatcher.subscribe name client })

def unsubscribe (s : ChannelManager) (name client : String) : Bool × ChannelManager :=
  let s := { s with topicMatcher := (s.topicMatcher.unsubscribe name client).2 }
  match s.channels.lookup name with
  | some inner =>
    (decide (client ∈ inner.subscribers),
      { s with
        channels := s.channels.insert name
          { inner with subscribers := inner.subscribers.erase client } })
  | none => (false, s)

/-- What `publish` does once the channel is found. -/
def sendTo (s : ChannelManager) (name : String) (inner : ChannelInner) (message : String) :
    Nat × ChannelManager :=
  let r := s.exchange.send inner.ring message
  (r.1,
    { s with
      channels := s.channels.insert name { inner with totalMessages := inner.totalMessages + 1 }
      exchange := r.2 })

def publish (s : ChannelManager) (name message : String) : Except PyExc Nat × ChannelManager :=
  match s.channels.lookup name with
  | none => (.error (noSuchChannel name), s)
  | some inner =>
    let r := s.sendTo name inner message
    (.ok r.1, r.2)

/-- One turn of the loop of `publish_to_topic`. -/
def publishIfMatching (topic message : String) (acc : Nat × ChannelManager) (name : String) :
    Nat × ChannelManager :=
  match acc.2.channels.lookup name with
  | none => acc
  | some inner =>
    if TopicMatcher.patternMatches topic name || TopicMatcher.patternMatches name topic then
      let r := acc.2.sendTo name inner message
      (acc.1 + r.1, r.2)
    else acc

/-- `order` are the keys of `channels` in their order of iteration. -/
def publishToTopic (s : ChannelManager) (topic message : String) (order : List String) :
    Nat × ChannelManager :=
  order.foldl (publishIfMatching topic message) (0, s)

def clear (s : ChannelManager) : ChannelManager :=
  { s with
    channels := ∅
    exchange := s.channels.entries.foldl (fun e c => e.close c.2.ring) s.exchange }

end ChannelManager

/-! ## Runs

`tryRecv`, `drain` and `drop` are about the handle with this number. -/

inductive ChannelCall
  | createChannel (name : String) (bufferSize : Option Nat) (metadata : Option Metadata)
  | removeChannel (name : String)
  | subscribe (name client : String)
  | unsubscribe (name client : String)
  | publish (name message : String)
  | publishToTopic (topic message : String) (order : List String)
  | clear
  | tryRecv (handle : Nat)
  | drain (handle : Nat)
  | drop (handle : Nat)

namespace ChannelManager

def step (s : ChannelManager) : ChannelCall → Option ChannelManager
  | .createChannel name bufferSize metadata => some (s.createChannel name bufferSize metadata).2
  | .removeChannel name => some (s.removeChannel name).2
  | .subscribe name client => some (s.subscribe name client).2
  | .unsubscribe name client => some (s.unsubscribe name client).2
  | .publish name message => some (s.publish name message).2
  | .publishToTopic topic message order =>
    if order.Perm s.channels.keys then some (s.publishToTopic topic message order).2 else none
  | .clear => some s.clear
  | .tryRecv i => (s.exchange.callOn i Handle.tryRecv).map fun r => { s with exchange := r.2 }
  | .drain i => (s.exchange.callOn i Handle.drain).map fun r => { s with exchange := r.2 }
  | .drop i => some { s with exchange := s.exchange.drop i }

end ChannelManager

/-! ## What the calls do to the matcher, the subscribers and the exchange -/

theorem TopicMatcher.clients_subscribe (m : TopicMatcher) (pattern client other : String) :
    (m.subscribe pattern client).clients other =
      if other = pattern then insert client (m.clients pattern) else m.clients other := by
  change ((m.patterns.insert pattern (insert client (m.clients pattern))).lookup other).getD ∅ = _
  rw [Table.lookup_insert_eq]
  split_ifs <;> rfl

theorem TopicMatcher.clients_unsubscribe (m : TopicMatcher) (pattern client other : String) :
    (m.unsubscribe pattern client).2.clients other =
      if other = pattern then (m.clients pattern).erase client else m.clients other := by
  unfold TopicMatcher.unsubscribe TopicMatcher.clients
  cases hpattern : m.patterns.lookup pattern with
  | none =>
    split_ifs with h
    · rw [h, hpattern]
      rfl
    · rfl
  | some clients =>
    dsimp only
    split_ifs with hempty h h
    · rw [Table.lookup_erase_eq, if_pos h]
      exact hempty.symm
    · rw [Table.lookup_erase_eq, if_neg h]
    · rw [Table.lookup_insert_eq, if_pos h]
      rfl
    · rw [Table.lookup_insert_eq, if_neg h]

namespace ChannelManager

variable (s : ChannelManager)

def subscribers (name : String) : Finset String :=
  match s.channels.lookup name with
  | some inner => inner.subscribers
  | none => ∅

theorem mem_subscribers {s : ChannelManager} {name client : String} :
    client ∈ s.subscribers name ↔
      ∃ inner, s.channels.lookup name = some inner ∧ client ∈ inner.subscribers := by
  unfold subscribers
  cases s.channels.lookup name with
  | none => exact ⟨fun h => absurd h (Finset.notMem_empty _), fun ⟨_, h, _⟩ => nomatch h⟩
  | some inner =>
    refine ⟨fun h => ⟨inner, rfl, h⟩, ?_⟩
    rintro ⟨_, heq, h⟩
    rwa [Option.some.inj heq]

/-- The channel of the exchange behind a name. -/
def ringOf (name : String) : Option Nat := (s.channels.lookup name).map ChannelInner.ring

theorem subscribers_of_lookup {s : ChannelManager} {name : String} {inner : ChannelInner}
    (h : s.channels.lookup name = some inner) : s.subscribers name = inner.subscribers := by
  unfold subscribers
  rw [h]

theorem subscribers_insert (name other : String) (inner : ChannelInner)
    (e : Exchange SubscriberLabel String) (m : TopicMatcher) :
    subscribers ⟨s.channels.insert name inner, s.defaultBufferSize, m, e⟩ other =
      if other = name then inner.subscribers else s.subscribers other := by
  unfold subscribers
  dsimp only
  rw [Table.lookup_insert_eq]
  by_cases h : other = name
  · rw [if_pos h, if_pos h]
  · rw [if_neg h, if_neg h]

theorem subscribers_createChannel (name other : String) (bufferSize : Option Nat)
    (metadata : Option Metadata) :
    (s.createChannel name bufferSize metadata).2.subscribers other = s.subscribers other := by
  unfold createChannel
  split_ifs with hmem
  · rfl
  · cases ringCapacity (bufferSize.getD s.defaultBufferSize) with
    | error e => rfl
    | ok capacity =>
      refine (s.subscribers_insert ..).trans ?_
      split_ifs with h
      · rw [h, subscribers, AList.lookup_eq_none.mpr hmem]
      · rfl

theorem subscribers_removeChannel (name other : String) :
    (s.removeChannel name).2.subscribers other = if other = name then ∅ else s.subscribers other := by
  unfold removeChannel subscribers
  cases hname : s.channels.lookup name with
  | none =>
    dsimp only
    split_ifs with h
    · rw [h, hname]
    · rfl
  | some inner =>
    dsimp only
    rw [Table.lookup_erase_eq]
    by_cases h : other = name
    · rw [if_pos h, if_pos h]
    · rw [if_neg h, if_neg h]

theorem subscribers_subscribe {s : ChannelManager} {name : String} {inner : ChannelInner}
    (h : s.channels.lookup name = some inner) (client other : String) :
    (s.subscribe name client).2.subscribers other =
      if other = name then insert client (s.subscribers name) else s.subscribers other := by
  rw [subscribers_of_lookup h]
  unfold subscribe
  rw [h]
  exact s.subscribers_insert ..

theorem subscribers_unsubscribe (name client other : String) :
    (s.unsubscribe name client).2.subscribers other =
      if other = name then (s.subscribers name).erase client else s.subscribers other := by
  unfold unsubscribe
  dsimp only
  cases h : s.channels.lookup name with
  | none =>
    have hnone : s.subscribers name = ∅ := by
      unfold subscribers
      rw [h]
    rw [hnone]
    split_ifs with hother
    · rw [hother]
      exact hnone
    · rfl
  | some inner =>
    rw [subscribers_of_lookup h]
    exact s.subscribers_insert ..

theorem subscribers_sendTo {s : ChannelManager} {name : String} {inner : ChannelInner}
    (h : s.channels.lookup name = some inner) (message other : String) :
    (s.sendTo name inner message).2.subscribers other = s.subscribers other := by
  refine (s.subscribers_insert ..).trans ?_
  split_ifs with hother
  · rw [hother, subscribers_of_lookup h]
  · rfl

/-- One message sent on a channel. -/
def SendStep (s t : ChannelManager) : Prop :=
  ∃ name inner message, s.channels.lookup name = some inner ∧ t = (s.sendTo name inner message).2

abbrev Sends : ChannelManager → ChannelManager → Prop := Relation.ReflTransGen SendStep

theorem publish_sends (name message : String) : Sends s (s.publish name message).2 := by
  unfold publish
  cases h : s.channels.lookup name with
  | none => exact .refl
  | some inner => exact .single ⟨name, inner, message, h, rfl⟩

theorem publishIfMatching_sends (topic message name : String) (acc : Nat × ChannelManager) :
    Sends acc.2 (publishIfMatching topic message acc name).2 := by
  unfold publishIfMatching
  cases h : acc.2.channels.lookup name with
  | none => exact .refl
  | some inner =>
    dsimp only
    split_ifs
    · exact .single ⟨name, inner, message, h, rfl⟩
    · exact .refl

theorem publishToTopic_sends (topic message : String) (order : List String) :
    Sends s (s.publishToTopic topic message order).2 := by
  unfold publishToTopic
  generalize 0 = total
  induction order generalizing total s with
  | nil => exact .refl
  | cons name order ih =>
    exact (publishIfMatching_sends topic message name (total, s)).trans (ih _ _)

/-- What one message leaves as it is. -/
theorem Sends.invariant {P : ChannelManager → Prop} {s t : ChannelManager} (h : Sends s t)
    (hstep : ∀ s t, P s → SendStep s t → P t) (hs : P s) : P t := by
  induction h with
  | refl => exact hs
  | tail _ hlast ih => exact hstep _ _ ih hlast

theorem subscribers_sends {s t : ChannelManager} (h : Sends s t) (name : String) :
    t.subscribers name = s.subscribers name ∧ t.topicMatcher = s.topicMatcher := by
  refine h.invariant (P := fun u => u.subscribers name = s.subscribers name ∧
    u.topicMatcher = s.topicMatcher) ?_ ⟨rfl, rfl⟩
  rintro u v ⟨hsub, hmatcher⟩ ⟨other, inner, message, hlookup, rfl⟩
  exact ⟨(subscribers_sendTo hlookup message name).trans hsub, hmatcher⟩

theorem step_publishToTopic {s t : ChannelManager} {topic message : String} {order : List String}
    (h : s.step (.publishToTopic topic message order) = some t) :
    t = (s.publishToTopic topic message order).2 :=
  (Option.some.inj (Option.ite_none_right_eq_some.mp h).2).symm

end ChannelManager

end Hypern.Realtime
