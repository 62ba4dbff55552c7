import Hypern.Realtime.Broadcast
import Hypern.Realtime.Heartbeat
import Hypern.Realtime.PresenceIndex

/-! `RealtimeHub` of `realtime.py`: one call updates the channels, the presence and the heartbeat
monitor in turn. The first two say the same about every client; the monitor follows the client's
last call, whichever channel it was about. -/

namespace Hypern.Realtime

open Lib Python

structure RealtimeHub where
  channels : ChannelManager
  presence : PresenceTracker
  broadcast : RealtimeBroadcast
  heartbeat : HeartbeatMonitor

/-- `trackedAt` and `registeredAt` are the times that `track` and `register` read. -/
inductive HubCall
  | createChannel (name : String) (bufferSize : Option Nat) (broadcastConfig : Option BroadcastConfig)
  | join (channel client : String) (metadata : Option Metadata) (trackedAt registeredAt : ℚ)
  | leave (channel client : String)
  | disconnect (client : String)

namespace RealtimeHub

def new (channelBufferSize : Nat) : RealtimeHub := ⟨.new channelBufferSize, .new, .new, .new⟩

def createChannel (s : RealtimeHub) (name : String) (bufferSize : Option Nat)
    (broadcastConfig : Option BroadcastConfig) : Except PyExc Unit × RealtimeHub :=
  let created := s.channels.createChannel name bufferSize none
  let s := { s with channels := created.2 }
  match created.1 with
  | .error e => (.error e, s)
  | .ok _ =>
    match broadcastConfig with
    | none => (.ok (), s)
    | some config =>
      let created := s.broadcast.create name (some config)
      (created.1.map fun _ => (), { s with broadcast := created.2 })

def join (s : RealtimeHub) (channel client : String) (metadata : Option Metadata)
    (trackedAt registeredAt : ℚ) : Except PyExc Unit × RealtimeHub :=
  let subscribed := s.channels.subscribe channel client
  let s := { s with channels := subscribed.2 }
  match subscribed.1 with
  | .error e => (.error e, s)
  | .ok _ =>
    (.ok (),
      { s with
        presence := (s.presence.track channel client metadata trackedAt).2
        heartbeat := s.heartbeat.register client none registeredAt })

def leave (s : RealtimeHub) (channel client : String) : RealtimeHub :=
  { s with
    channels := (s.channels.unsubscribe channel client).2
    presence := (s.presence.untrack channel client).2
    heartbeat := (s.heartbeat.unregister client).2 }

def disconnect (s : RealtimeHub) (client : String) : List String × RealtimeHub :=
  let untracked := s.presence.untrackAll client
  (untracked.1,
    { s with
      presence := untracked.2
      channels := untracked.1.foldl (fun m channel => (m.unsubscribe channel client).2) s.channels
      heartbeat := (s.heartbeat.unregister client).2 })

def step (s : RealtimeHub) : HubCall → Option RealtimeHub
  | .createChannel name bufferSize config => some (s.createChannel name bufferSize config).2
  | .join channel client metadata trackedAt registeredAt =>
    some (s.join channel client metadata trackedAt registeredAt).2
  | .leave channel client => some (s.leave channel client)
  | .disconnect client => some (s.disconnect client).2

def Registered (s : RealtimeHub) (client : String) : Prop := client ∈ s.heartbeat.clients

/-- The call is one by which the client joins a channel that exists. -/
def Joins (s : RealtimeHub) : HubCall → String → Prop
  | .join channel client _ _ _, who => client = who ∧ channel ∈ s.channels.channels
  | _, _ => False

/-- The call is one by which the client leaves a channel, or all. -/
def Leaves : HubCall → String → Prop
  | .leave _ client, who => client = who
  | .disconnect client, who => client = who
  | _, _ => False

/-- In the run of these calls from `s` the client has joined a channel and left none since. -/
def StaysJoined (s : RealtimeHub) (calls : List HubCall) (client : String) : Prop :=
  ∃ before call after t, calls = before ++ call :: after ∧ exec step s before = some t ∧
    Joins t call client ∧ ∀ later ∈ after, ¬ Leaves later client

/-! ## One call -/

variable {s t : RealtimeHub}

theorem createChannel_same (name : String) (bufferSize : Option Nat) (config : Option BroadcastConfig) :
    (s.createChannel name bufferSize config).2.presence = s.presence ∧
      (s.createChannel name bufferSize config).2.heartbeat = s.heartbeat ∧
      (s.createChannel name bufferSize config).2.channels =
        (s.channels.createChannel name bufferSize none).2 := by
  unfold createChannel
  dsimp only
  cases (s.channels.createChannel name bufferSize none).1 with
  | error e => exact ⟨rfl, rfl, rfl⟩
  | ok created => cases config <;> exact ⟨rfl, rfl, rfl⟩

theorem join_of_missing {channel : String} (h : channel ∉ s.channels.channels) (client : String)
    (metadata : Option Metadata) (trackedAt registeredAt : ℚ) :
    s.join channel client metadata trackedAt registeredAt = (.error (noSuchChannel channel), s) := by
  unfold join ChannelManager.subscribe
  rw [AList.lookup_eq_none.mpr h]

theorem join_of_exists {channel : String} (h : channel ∈ s.channels.channels) (client : String)
    (metadata : Option Metadata) (trackedAt registeredAt : ℚ) :
    (s.join channel client metadata trackedAt registeredAt).2 =
      { s with
        channels := (s.channels.subscribe channel client).2
        presence := (s.presence.track channel client metadata trackedAt).2
        heartbeat := s.heartbeat.register client none registeredAt } := by
  obtain ⟨inner, hlookup⟩ := Table.mem_iff_lookup.mp h
  unfold join ChannelManager.subscribe
  rw [hlookup]

theorem registered_step {call : HubCall} (hstep : s.step call = some t) (client : String) :
    t.Registered client ↔ s.Joins call client ∨ s.Registered client ∧ ¬ Leaves call client := by
  cases call with
  | createChannel name bufferSize config =>
    cases hstep
    obtain ⟨-, hheartbeat, -⟩ := createChannel_same (s := s) name bufferSize config
    rw [Registered, hheartbeat]
    exact ⟨fun h => .inr ⟨h, not_false⟩, fun h => (h.resolve_left not_false).1⟩
  | join channel other metadata trackedAt registeredAt =>
    cases hstep
    by_cases hmem : channel ∈ s.channels.channels
    · rw [join_of_exists hmem, Registered]
      refine (AList.mem_insert _).trans (or_congr ?_ (and_iff_left not_false).symm)
      exact eq_comm.trans (and_iff_left hmem).symm
    · rw [join_of_missing hmem]
      exact ⟨fun h => .inr ⟨h, not_false⟩, fun h => (h.resolve_left fun hj => hmem hj.2).1⟩
  | leave channel other =>
    cases hstep
    refine AList.mem_erase.trans ?_
    rw [and_comm, ne_comm]
    exact (or_iff_right not_false).symm
  | disconnect other =>
    cases hstep
    refine AList.mem_erase.trans ?_
    rw [and_comm, ne_comm]
    exact (or_iff_right not_false).symm

theorem mem_subscribers_unsubscribeEach (channels : List String) (client : String)
    (m : ChannelManager) (channel' client' : String) :
    client' ∈ (channels.foldl (fun m channel => (m.unsubscribe channel client).2) m).subscribers
        channel' ↔
      client' ∈ m.subscribers channel' ∧ ¬ (channel' ∈ channels ∧ client' = client) := by
  induction channels generalizing m with
  | nil => exact (and_iff_left fun h => nomatch h.1).symm
  | cons channel channels ih =>
    rw [List.foldl_cons, ih, ChannelManager.subscribers_unsubscribe, List.mem_cons]
    split_ifs with h
    · subst h
      rw [Finset.mem_erase]
      tauto
    · tauto

/-! ## Whole runs -/

/-- Channels and presence agree, and whoever is watched is present somewhere. -/
structure Consistent (s : RealtimeHub) : Prop where
  indexed : s.presence.Indexed
  agree : ∀ channel client,
    client ∈ s.channels.subscribers channel ↔ s.presence.Member channel client
  present : ∀ client, s.Registered client → ∃ channel, s.presence.Member channel client

namespace Consistent

theorem new (channelBufferSize : Nat) : Consistent (.new channelBufferSize) :=
  ⟨.new, fun _ _ => ⟨nofun, nofun⟩, nofun⟩

theorem join (h : Consistent s) {channel : String} (hmem : channel ∈ s.channels.channels)
    (client : String) (metadata : Option Metadata) (trackedAt registeredAt : ℚ) :
    Consistent (s.join channel client metadata trackedAt registeredAt).2 := by
  obtain ⟨inner, hlookup⟩ := Table.mem_iff_lookup.mp hmem
  rw [join_of_exists hmem]
  refine ⟨h.indexed.track channel client metadata trackedAt, fun channel' client' => ?_,
    fun client' hreg => ?_⟩
  · dsimp only
    rw [ChannelManager.subscribers_subscribe hlookup, PresenceTracker.member_track, ← h.agree]
    split_ifs with hc
    · rw [hc, Finset.mem_insert, and_iff_right rfl]
    · exact (or_iff_right fun hboth => hc hboth.1).symm
  · dsimp only
    rcases (AList.mem_insert _).mp hreg with rfl | hold
    · exact ⟨channel, (PresenceTracker.member_track ..).mpr (.inl ⟨rfl, rfl⟩)⟩
    · obtain ⟨channel', hmember⟩ := h.present client' hold
      exact ⟨channel', (PresenceTracker.member_track ..).mpr (.inr hmember)⟩

theorem leave (h : Consistent s) (channel client : String) : Consistent (s.leave channel client) := by
  refine ⟨h.indexed.untrack channel client, fun channel' client' => ?_, fun client' hreg => ?_⟩
  · unfold RealtimeHub.leave
    dsimp only
    rw [ChannelManager.subscribers_unsubscribe, PresenceTracker.member_untrack, ← h.agree]
    split_ifs with hc
    · rw [hc, Finset.mem_erase, and_iff_right rfl, and_comm]
    · exact (and_iff_left fun hboth => hc hboth.1).symm
  · -- whoever is still watched is another client
    obtain ⟨hne, hold⟩ := AList.mem_erase.mp hreg
    obtain ⟨channel', hmember⟩ := h.present client' hold
    exact ⟨channel', (PresenceTracker.member_untrack ..).mpr ⟨hmember, fun hboth => hne hboth.2⟩⟩

theorem disconnect (h : Consistent s) (client : String) : Consistent (s.disconnect client).2 := by
  have hleft : (s.presence.untrackAll client).1 = s.presence.clientChannels client := by
    unfold PresenceTracker.untrackAll PresenceTracker.clientChannels
    cases s.presence.channelsByClient.lookup client <;> rfl
  refine ⟨h.indexed.untrackAll client, fun channel' client' => ?_, fun client' hreg => ?_⟩
  · unfold RealtimeHub.disconnect
    dsimp only
    rw [mem_subscribers_unsubscribeEach, PresenceTracker.member_untrackAll, ← h.agree, hleft]
  · obtain ⟨hne, hold⟩ := AList.mem_erase.mp hreg
    obtain ⟨channel', hmember⟩ := h.present client' hold
    exact ⟨channel',
      (PresenceTracker.member_untrackAll ..).mpr ⟨hmember, fun hboth => hne hboth.2⟩⟩

theorem step (h : Consistent s) {call : HubCall} (hstep : s.step call = some t) : Consistent t := by
  cases call with
  | createChannel name bufferSize config =>
    cases hstep
    obtain ⟨hpresence, hheartbeat, hchannels⟩ := createChannel_same (s := s) name bufferSize config
    refine ⟨hpresence ▸ h.indexed, fun channel client => ?_, fun client hreg => ?_⟩
    · rw [hchannels, hpresence, ChannelManager.subscribers_createChannel]
      exact h.agree channel client
    · rw [Registered, hheartbeat] at hreg
      rw [hpresence]
      exact h.present client hreg
  | join channel client metadata trackedAt registeredAt =>
    cases hstep
    by_cases hmem : channel ∈ s.channels.channels
    · exact h.join hmem client metadata trackedAt registeredAt
    · rw [join_of_missing hmem]
      exact h
  | leave channel client =>
    cases hstep
    exact h.leave channel client
  | disconnect client =>
    cases hstep
    exact h.disconnect client

theorem of_reaches {channelBufferSize : Nat} (h : Reaches RealtimeHub.step (.new channelBufferSize) s) :
    Consistent s :=
  h.invariant (fun _ _ _ hs hstep => hs.step hstep) (new channelBufferSize)

end Consistent

theorem staysJoined_cons {call : HubCall} {calls : List HubCall} {client : String}
    (hstep : s.step call = some t) :
    s.StaysJoined (call :: calls) client ↔
      t.StaysJoined calls client ∨ s.Joins call client ∧ ∀ later ∈ calls, ¬ Leaves later client := by
  constructor
  · rintro ⟨before, call', after, u, heq, hexec, hjoins, hafter⟩
    cases before with
    | nil =>
      cases hexec
      obtain ⟨rfl, rfl⟩ := List.cons.inj heq
      exact .inr ⟨hjoins, hafter⟩
    | cons first before =>
      obtain ⟨rfl, htail⟩ := List.cons.inj heq
      obtain ⟨t', ht', hexec⟩ := exec_cons_eq_some.mp hexec
      obtain rfl := Option.some.inj (hstep.symm.trans ht')
      exact .inl ⟨before, call', after, u, htail, hexec, hjoins, hafter⟩
  · rintro (⟨before, call', after, u, rfl, hexec, hjoins, hafter⟩ | ⟨hjoins, hafter⟩)
    · exact ⟨call :: before, call', after, u, rfl, exec_cons_eq_some.mpr ⟨t, hstep, hexec⟩, hjoins,
        hafter⟩
    · exact ⟨[], call, calls, s, rfl, rfl, hjoins, hafter⟩

/-- The monitor after a run: those who stay joined, and those it watched before who never left. -/
theorem registered_exec {calls : List HubCall} (hexec : exec step s calls = some t) (client : String) :
    t.Registered client ↔
      s.StaysJoined calls client ∨ s.Registered client ∧ ∀ call ∈ calls, ¬ Leaves call client := by
  induction calls generalizing s with
  | nil =>
    cases hexec
    refine ⟨fun h => .inr ⟨h, nofun⟩, ?_⟩
    rintro (⟨before, call, after, u, heq, -⟩ | ⟨h, -⟩)
    · cases before <;> cases heq
    · exact h
  | cons call calls ih =>
    obtain ⟨u, hstep, hexec⟩ := exec_cons_eq_some.mp hexec
    rw [ih hexec, registered_step hstep, staysJoined_cons hstep, List.forall_mem_cons]
    tauto

theorem exists_of_subscriber {channel client : String} (h : client ∈ s.channels.subscribers channel) :
    channel ∈ s.channels.channels := by
  obtain ⟨inner, hlookup, -⟩ := ChannelManager.mem_subscribers.mp h
  exact Table.mem_iff_lookup.mpr ⟨inner, hlookup⟩

/-- After every run, subscribers are those present, and the monitor watches those who have left
no channel since they last joined one. -/
theorem hub_consistent (channelBufferSize : Nat) (calls : List HubCall) (s : RealtimeHub)
    (hexec : exec step (new channelBufferSize) calls = some s) :
    (∀ channel ∈ s.channels.channels, ∀ client,
      client ∈ s.channels.subscribers channel ↔ s.presence.Member channel client) ∧
      ∀ client, (s.Registered client ↔ (new channelBufferSize).StaysJoined calls client) ∧
        (s.Registered client → ∃ channel ∈ s.channels.channels, s.presence.Member channel client) := by
  have hconsistent := Consistent.of_reaches ⟨calls, hexec⟩
  refine ⟨fun channel _ => hconsistent.agree channel, fun client => ⟨?_, fun hreg => ?_⟩⟩
  · rw [registered_exec hexec]
    exact or_iff_left fun h => nomatch h.1
  · obtain ⟨channel, hmember⟩ := hconsistent.present client hreg
    exact ⟨channel, exists_of_subscriber ((hconsistent.agree channel client).mpr hmember), hmember⟩

/-- Alice has joined two rooms and left one of them. -/
def oneRoomLeft : List HubCall :=
  [.createChannel "room1" none none, .createChannel "room2" none none, .join "room1" "alice" none 0 0,
    .join "room2" "alice" none 1 1, .leave "room1" "alice"]

theorem oneRoomLeft_consistent :
    ∃ s, exec step (new 256) oneRoomLeft = some s ∧
      ("alice" ∈ s.channels.subscribers "room2" ↔ s.presence.Member "room2" "alice") ∧
      ¬ (new 256).StaysJoined oneRoomLeft "alice" := by
  refine ⟨_, rfl, ?_⟩
  have h := hub_consistent 256 oneRoomLeft _ rfl
  refine ⟨h.1 "room2" (by decide +kernel) "alice", fun hjoined => ?_⟩
  exact absurd ((h.2 "alice").1.mpr hjoined) (by unfold Registered; decide +kernel)

/-- A client that is present in a room but not watched. -/
theorem present_not_registered :
    ∃ s, exec step (new 256) oneRoomLeft = some s ∧
      ¬ ∀ client, s.Registered client ↔ ∃ channel, s.presence.Member channel client := by
  refine ⟨_, rfl, fun h => ?_⟩
  have hreg := (h "alice").mpr ⟨"room2", by decide +kernel⟩
  exact absurd hreg (by unfold Registered; decide +kernel)

end RealtimeHub

end Hypern.Realtime
