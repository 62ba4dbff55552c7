import Hypern.Realtime.Channel

/-! `broadcast.rs`: named broadcast channels with a policy for messages that nobody receives and,
if enabled, a window of message ids for deduplication. -/

namespace Hypern.Realtime

open Lib Python

inductive BackpressurePolicy
  | dropOldest | error
  deriving DecidableEq

structure BroadcastConfig where
  bufferSize : Nat := 256
  policy : BackpressurePolicy := .dropOldest
  dedupEnabled : Bool := false
  dedupWindow : Nat := 1000

structure BroadcastInner where
  ring : Nat
  config : BroadcastConfig
  totalSent : Nat
  totalDropped : Nat
  totalDeduped : Nat
  subscriberCount : Nat
  recentIds : List String

/-- A `BroadcastSubscriber` is made for a channel of this name. -/
structure RealtimeBroadcast where
  channels : Table String BroadcastInner
  exchange : Exchange String String

def noSuchBroadcast (name : String) : PyExc :=
  keyError ("Broadcast channel '" ++ name ++ "' does not exist")

namespace BroadcastInner

/-- The id becomes the last of the window, from whose front old ids fall out. -/
def remember (inner : BroadcastInner) (messageId : String) : BroadcastInner :=
  let recent := inner.recentIds ++ [messageId]
  { inner with recentIds := recent.drop (recent.length - inner.config.dedupWindow) }

/-- The deduplication check of `send`: the channel after it, or that the message is a duplicate. -/
def dedup (inner : BroadcastInner) (messageId : Option String) : Option BroadcastInner :=
  match messageId with
  | none => some inner
  | some messageId =>
    if !inner.config.dedupEnabled then some inner
    else if messageId ∈ inner.recentIds then none
    else some (inner.remember messageId)

/-- The check changes nothing but the memory. -/
theorem dedup_eq_some {inner kept : BroadcastInner} {messageId : Option String}
    (h : inner.dedup messageId = some kept) : ∃ ids, kept = { inner with recentIds := ids } := by
  unfold dedup at h
  cases messageId with
  | none =>
    have hkept : inner = kept := Option.some.inj h
    exact ⟨inner.recentIds, hkept.symm⟩
  | some id =>
    dsimp only at h
    split_ifs at h with hoff hid
    · have hkept : inner = kept := Option.some.inj h
      exact ⟨inner.recentIds, hkept.symm⟩
    · have hkept : inner.remember id = kept := Option.some.inj h
      exact ⟨_, hkept.symm⟩

end BroadcastInner

namespace RealtimeBroadcast

def new : RealtimeBroadcast := ⟨∅, .empty⟩

def create (s : RealtimeBroadcast) (name : String) (config : Option BroadcastConfig) :
    Except PyExc Bool × RealtimeBroadcast :=
  if name ∈ s.channels then (.ok false, s)
  else
    let cfg := config.getD {}
    match ringCapacity cfg.bufferSize with
    | .error e => (.error e, s)
    | .ok capacity =>
      (.ok true,
        { exchange := s.exchange.channel capacity.1 (capacity_pos capacity)
          channels := s.channels.insert name ⟨s.exchange.rings.length, cfg, 0, 0, 0, 0, []⟩ })

def remove (s : RealtimeBroadcast) (name : String) : Bool × RealtimeBroadcast :=
  match s.channels.lookup name with
  | some inner =>
    (true, { channels := s.channels.erase name, exchange := s.exchange.close inner.ring })
  | none => (false, s)

def subscribe (s : RealtimeBroadcast) (name : String) : Except PyExc Unit × RealtimeBroadcast :=
  match s.channels.lookup name with
  | none => (.error (noSuchBroadcast name), s)
  | some inner =>
    (.ok (),
      { channels := s.channels.insert name
          { inner with subscriberCount := inner.subscriberCount + 1 }
        exchange := s.exchange.subscribe inner.ring name })

def send (s : RealtimeBroadcast) (name message : String) (messageId : Option String) :
    Except PyExc Nat × RealtimeBroadcast :=
  match s.channels.lookup name with
  | none => (.error (noSuchBroadcast name), s)
  | some inner =>
    match inner.dedup messageId with
    | none =>
      (.ok 0,
        { s with
          channels := s.channels.insert name { inner with totalDeduped := inner.totalDeduped + 1 } })
    | some inner =>
      let inner := { inner with totalSent := inner.totalSent + 1 }
      let r := s.exchange.send inner.ring message
      if r.1 ≠ 0 then (.ok r.1, { channels := s.channels.insert name inner, exchange := r.2 })
      else
        match inner.config.policy with
        | .error =>
          (.error (runtimeError "No active subscribers"),
            { channels := s.channels.insert name inner, exchange := r.2 })
        | .dropOldest =>
          (.ok 0,
            { channels := s.channels.insert name
                { inner with totalDropped := inner.totalDropped + 1 }
              exchange := r.2 })

/-- One turn of the loop of `send_many`. -/
def sendOne (message : String) (acc : Table String Nat × RealtimeBroadcast) (name : String) :
    Table String Nat × RealtimeBroadcast :=
  match acc.2.channels.lookup name with
  | none => acc
  | some inner =>
    let r := acc.2.exchange.send inner.ring message
    (acc.1.insert name r.1,
      { channels := acc.2.channels.insert name { inner with totalSent := inner.totalSent + 1 }
        exchange := r.2 })

def sendMany (s : RealtimeBroadcast) (names : List String) (message : String) :
    Table String Nat × RealtimeBroadcast :=
  names.foldl (sendOne message) (∅, s)

def clear (s : RealtimeBroadcast) : RealtimeBroadcast :=
  { channels := ∅
    exchange := s.channels.entries.foldl (fun e c => e.close c.2.ring) s.exchange }

end RealtimeBroadcast

/-! ## Runs -/

inductive BroadcastCall
  | create (name : String) (config : Option BroadcastConfig)
  | remove (name : String)
  | subscribe (name : String)
  | send (name message : String) (messageId : Option String)
  | sendMany (names : List String) (message : String)
  | clear
  | tryRecv (handle : Nat)
  | drain (handle : Nat)
  | drop (handle : Nat)

namespace RealtimeBroadcast

def step (s : RealtimeBroadcast) : BroadcastCall → Option RealtimeBroadcast
  | .create name config => some (s.create name config).2
  | .remove name => some (s.remove name).2
  | .subscribe name => some (s.subscribe name).2
  | .send name message messageId => some (s.send name message messageId).2
  | .sendMany names message => some (s.sendMany names message).2
  | .clear => some s.clear
  | .tryRecv i => (s.exchange.callOn i Handle.tryRecv).map fun r => { s with exchange := r.2 }
  | .drain i => (s.exchange.callOn i Handle.drain).map fun r => { s with exchange := r.2 }
  | .drop i => some { s with exchange := s.exchange.drop i }

end RealtimeBroadcast

end Hypern.Realtime
