import Mathlib.Data.Rat.Defs
import Hypern.Lib.Run
import Hypern.Lib.Table

/-! `PresenceTracker` of `presence.rs`: who is present in which channel, kept by channel and
by client. A call takes the time that `now_secs` returns to it. -/

namespace Hypern.Realtime

open Lib

abbrev Metadata := Table String String

structure PresenceInfo where
  clientId : String
  channel : String
  metadata : Metadata
  joinedAt : ℚ
  lastSeen : ℚ

def PresenceInfo.new (clientId channel : String) (metadata : Option Metadata) (now : ℚ) :
    PresenceInfo :=
  ⟨clientId, channel, metadata.getD ∅, now, now⟩

structure PresenceDiff where
  joins : List PresenceInfo
  leaves : List String

structure ChannelPresence where
  members : Table String PresenceInfo
  pendingJoins : List PresenceInfo
  pendingLeaves : List String

namespace ChannelPresence

def new : ChannelPresence := ⟨∅, [], []⟩

/-- The client is a member with this `info` and recorded as a pending join. -/
def join (cp : ChannelPresence) (client : String) (info : PresenceInfo) : ChannelPresence :=
  { cp with members := cp.members.insert client info, pendingJoins := cp.pendingJoins ++ [info] }

/-- The member is removed and recorded as a pending leave. -/
def leave (cp : ChannelPresence) (client : String) : ChannelPresence :=
  { cp with members := cp.members.erase client, pendingLeaves := cp.pendingLeaves ++ [client] }

def leaveIfPresent (cp : ChannelPresence) (client : String) : ChannelPresence :=
  if client ∈ cp.members then cp.leave client else cp

def touch (cp : ChannelPresence) (client : String) (f : PresenceInfo → PresenceInfo) :
    ChannelPresence :=
  { cp with members := cp.members.modify client f }

def idle (cp : ChannelPresence) : Bool :=
  cp.members.keys.isEmpty && cp.pendingJoins.isEmpty && cp.pendingLeaves.isEmpty

def isStale (cp : ChannelPresence) (cutoff : ℚ) (client : String) : Bool :=
  match cp.members.lookup client with
  | some info => decide (info.lastSeen < cutoff)
  | none => false

end ChannelPresence

/-- `channelsByClient` is the field `client_channels`. -/
structure PresenceTracker where
  channels : Table String ChannelPresence
  channelsByClient : Table String (List String)

/-- `channels.retain(|c| c != channel)`, and an entry that is empty then is removed. -/
def retainOthers (index : Table String (List String)) (channel client : String) :
    Table String (List String) :=
  match index.lookup client with
  | none => index
  | some channels =>
    let channels := channels.filter (· ≠ channel)
    if channels.isEmpty then index.erase client else index.insert client channels

namespace PresenceTracker

def new : PresenceTracker := ⟨∅, ∅⟩

def members (s : PresenceTracker) (channel : String) : Table String PresenceInfo :=
  match s.channels.lookup channel with
  | some cp => cp.members
  | none => ∅

def get (s : PresenceTracker) (channel client : String) : Option PresenceInfo :=
  (s.members channel).lookup client

def count (s : PresenceTracker) (channel : String) : Nat := (s.members channel).keys.length

def clientChannels (s : PresenceTracker) (client : String) : List String :=
  (s.channelsByClient.lookup client).getD []

def totalClients (s : PresenceTracker) : Nat := s.channelsByClient.keys.length

def track (s : PresenceTracker) (channel client : String) (metadata : Option Metadata) (now : ℚ) :
    PresenceInfo × PresenceTracker :=
  let info := PresenceInfo.new client channel metadata now
  let cp := (s.channels.lookup channel).getD .new
  (info,
    { channels := s.channels.insert channel (cp.join client info)
      channelsByClient :=
        s.channelsByClient.insert client (s.clientChannels client ++ [channel]) })

def untrack (s : PresenceTracker) (channel client : String) : Bool × PresenceTracker :=
  let removed := (s.get channel client).isSome
  let channels := s.channels.modify channel (·.leaveIfPresent client)
  let channels := match channels.lookup channel with
    | some cp => if cp.idle then channels.erase channel else channels
    | none => channels
  (removed, ⟨channels, retainOthers s.channelsByClient channel client⟩)

def untrackAll (s : PresenceTracker) (client : String) : List String × PresenceTracker :=
  match s.channelsByClient.lookup client with
  | none => ([], s)
  | some left =>
    (left,
      { channels :=
          left.foldl (fun t channel => t.modify channel (·.leaveIfPresent client)) s.channels
        channelsByClient := s.channelsByClient.erase client })

/-- What `update` and `touch` do to a member. -/
def touchWith (s : PresenceTracker) (channel client : String) (f : PresenceInfo → PresenceInfo) :
    Bool × PresenceTracker :=
  ((s.get channel client).isSome,
    { s with channels := s.channels.modify channel (·.touch client f) })

def update (s : PresenceTracker) (channel client : String) (metadata : Metadata) (now : ℚ) :
    Bool × PresenceTracker :=
  s.touchWith channel client fun info => { info with metadata := metadata, lastSeen := now }

def touch (s : PresenceTracker) (channel client : String) (now : ℚ) : Bool × PresenceTracker :=
  s.touchWith channel client fun info => { info with lastSeen := now }

def flushDiff (s : PresenceTracker) (channel : String) : PresenceDiff × PresenceTracker :=
  match s.channels.lookup channel with
  | some cp =>
    (⟨cp.pendingJoins, cp.pendingLeaves⟩,
      { s with channels := s.channels.insert channel ⟨cp.members, [], []⟩ })
  | none => (⟨[], []⟩, s)

/-- One turn of the loop over the channels in `evict_stale`; `clients` are the keys of the
channel's map in its order of iteration. -/
def evictChannel (cutoff : ℚ) (acc : List (String × String) × Table String ChannelPresence)
    (visit : String × List String) : List (String × String) × Table String ChannelPresence :=
  match acc.2.lookup visit.1 with
  | none => acc
  | some cp =>
    let stale := visit.2.filter (cp.isStale cutoff)
    (acc.1 ++ stale.map (visit.1, ·), acc.2.insert visit.1 (stale.foldl .leave cp))

/-- `visits` are the channels in their order of iteration, each with its members in theirs. -/
def evictStale (s : PresenceTracker) (timeout now : ℚ) (visits : List (String × List String)) :
    List (String × String) × PresenceTracker :=
  let r := visits.foldl (evictChannel (now - timeout)) ([], s.channels)
  (r.1, ⟨r.2, r.1.foldl (fun index e => retainOthers index e.1 e.2) s.channelsByClient⟩)

def clear (_ : PresenceTracker) : PresenceTracker := ⟨∅, ∅⟩

/-- An order in which hash maps with these keys may be iterated. -/
def Visits (s : PresenceTracker) (visits : List (String × List String)) : Prop :=
  (visits.map Prod.fst).Perm s.channels.keys ∧ ∀ v ∈ visits, v.2.Perm (s.members v.1).keys

instance (s : PresenceTracker) (visits : List (String × List String)) :
    Decidable (s.Visits visits) :=
  inferInstanceAs (Decidable (_ ∧ _))

end PresenceTracker

/-! ## Runs -/

inductive PresenceCall
  | track (channel client : String) (metadata : Option Metadata) (now : ℚ)
  | untrack (channel client : String)
  | untrackAll (client : String)
  | update (channel client : String) (metadata : Metadata) (now : ℚ)
  | touch (channel client : String) (now : ℚ)
  | flushDiff (channel : String)
  | evictStale (timeout now : ℚ) (visits : List (String × List String))
  | clear

namespace PresenceTracker

def step (s : PresenceTracker) : PresenceCall → Option PresenceTracker
  | .track channel client metadata now => some (s.track channel client metadata now).2
  | .untrack channel client => some (s.untrack channel client).2
  | .untrackAll client => some (s.untrackAll client).2
  | .update channel client metadata now => some (s.update channel client metadata now).2
  | .touch channel client now => some (s.touch channel client now).2
  | .flushDiff channel => some (s.flushDiff channel).2
  | .evictStale timeout now visits =>
    if s.Visits visits then some (s.evictStale timeout now visits).2 else none
  | .clear => some s.clear

theorem step_evictStale {s t : PresenceTracker} {timeout now : ℚ}
    {visits : List (String × List String)} (h : s.step (.evictStale timeout now visits) = some t) :
    s.Visits visits ∧ t = (s.evictStale timeout now visits).2 := by
  obtain ⟨hvisits, heq⟩ := Option.ite_none_right_eq_some.mp h
  exact ⟨hvisits, (Option.some.inj heq).symm⟩

end PresenceTracker

/-! ## One channel

A channel that is not in the map behaves like one that has just been made. -/

def presenceIn (t : Table String ChannelPresence) (channel : String) : ChannelPresence :=
  (t.lookup channel).getD .new

section PresenceIn

variable (t : Table String ChannelPresence) (k channel : String)

theorem presenceIn_insert (cp : ChannelPresence) :
    presenceIn (t.insert k cp) channel = if channel = k then cp else presenceIn t channel := by
  unfold presenceIn
  rw [Table.lookup_insert_eq]
  split_ifs <;> rfl

theorem presenceIn_modify {f : ChannelPresence → ChannelPresence} (hf : f .new = .new) :
    presenceIn (t.modify k f) channel =
      if channel = k then f (presenceIn t k) else presenceIn t channel := by
  unfold presenceIn
  rw [Table.lookup_modify]
  split_ifs
  · cases t.lookup k with
    | none => exact hf.symm
    | some cp => rfl
  · rfl

theorem presenceIn_erase :
    presenceIn (t.erase k) channel = if channel = k then .new else presenceIn t channel := by
  unfold presenceIn
  rw [Table.lookup_erase_eq]
  split_ifs <;> rfl

end PresenceIn

namespace ChannelPresence

theorem leaveIfPresent_new (client : String) : leaveIfPresent new client = new :=
  if_neg (AList.notMem_empty client)

theorem touch_new (client : String) (f : PresenceInfo → PresenceInfo) : touch new client f = new :=
  rfl

theorem eq_new_of_idle {cp : ChannelPresence} (h : cp.idle = true) : cp = new := by
  obtain ⟨members, joins, leaves⟩ := cp
  simp only [idle, Bool.and_eq_true, List.isEmpty_iff] at h
  obtain ⟨⟨hkeys, rfl⟩, rfl⟩ := h
  obtain rfl : members = ∅ := AList.ext (List.map_eq_nil_iff.mp hkeys)
  rfl

end ChannelPresence

theorem presenceIn_leave (t : Table String ChannelPresence) (k channel client : String) :
    presenceIn (t.modify k (·.leaveIfPresent client)) channel =
      if channel = k then (presenceIn t k).leaveIfPresent client else presenceIn t channel :=
  presenceIn_modify t k channel (f := (·.leaveIfPresent client))
    (ChannelPresence.leaveIfPresent_new client)

namespace PresenceTracker

variable (s : PresenceTracker) (channel client other : String)

def presence : ChannelPresence := presenceIn s.channels channel

theorem members_eq : s.members channel = (s.presence channel).members := by
  unfold members PresenceTracker.presence presenceIn
  cases s.channels.lookup channel <;> rfl

theorem get_eq : s.get channel client = (s.presence channel).members.lookup client :=
  congrArg (AList.lookup client) (s.members_eq channel)

theorem presence_track (metadata : Option Metadata) (now : ℚ) :
    (s.track channel client metadata now).2.presence other =
      if other = channel then
        (s.presence channel).join client (.new client channel metadata now)
      else s.presence other :=
  presenceIn_insert ..

theorem presence_untrack :
    (s.untrack channel client).2.presence other =
      if other = channel then (s.presence channel).leaveIfPresent client else s.presence other := by
  have hleave := presenceIn_leave s.channels channel other client
  unfold untrack PresenceTracker.presence
  dsimp only
  cases hcp : (s.channels.modify channel (·.leaveIfPresent client)).lookup channel with
  | none => exact hleave
  | some cp =>
    dsimp only
    split_ifs with hidle hother
    · -- a channel that is dropped is as good as new
      subst hother
      rw [if_pos rfl] at hleave
      rw [presenceIn_erase, if_pos rfl, ← hleave, presenceIn, hcp]
      exact (ChannelPresence.eq_new_of_idle hidle).symm
    · rw [presenceIn_erase, if_neg hother, hleave, if_neg hother]
    · exact hleave.trans (if_pos ‹_›)
    · exact hleave.trans (if_neg ‹_›)

theorem presence_touchWith (f : PresenceInfo → PresenceInfo) :
    (s.touchWith channel client f).2.presence other =
      if other = channel then (s.presence channel).touch client f else s.presence other :=
  presenceIn_modify _ _ _ (ChannelPresence.touch_new client f)

theorem flushDiff_fst :
    (s.flushDiff channel).1 =
      ⟨(s.presence channel).pendingJoins, (s.presence channel).pendingLeaves⟩ := by
  unfold flushDiff PresenceTracker.presence presenceIn
  cases s.channels.lookup channel <;> rfl

theorem presence_flushDiff :
    (s.flushDiff channel).2.presence other =
      if other = channel then ⟨(s.presence channel).members, [], []⟩ else s.presence other := by
  unfold flushDiff PresenceTracker.presence
  cases hcp : s.channels.lookup channel with
  | none =>
    dsimp only
    split_ifs with hother
    · rw [hother, presenceIn, hcp]
      rfl
    · rfl
  | some cp =>
    have hpresence : presenceIn s.channels channel = cp := by
      rw [presenceIn, hcp]
      rfl
    dsimp only
    rw [presenceIn_insert, hpresence]

end PresenceTracker

/-! ## Eviction -/

namespace ChannelPresence

theorem lookup_leaveAll (clients : List String) (cp : ChannelPresence) (client : String) :
    (clients.foldl leave cp).members.lookup client =
      if client ∈ clients then none else cp.members.lookup client := by
  induction clients generalizing cp with
  | nil => rfl
  | cons c clients ih =>
    rw [List.foldl_cons, ih]
    change (if client ∈ clients then none else (cp.members.erase c).lookup client) = _
    rw [Table.lookup_erase_eq, ← ite_or]
    exact if_congr (or_comm.trans List.mem_cons.symm) rfl rfl

theorem pendingJoins_leaveAll (clients : List String) (cp : ChannelPresence) :
    (clients.foldl leave cp).pendingJoins = cp.pendingJoins := by
  induction clients generalizing cp with
  | nil => rfl
  | cons c clients ih => exact ih _

end ChannelPresence

namespace PresenceTracker

def staleIn (cutoff : ℚ) (t : Table String ChannelPresence) (visit : String × List String) :
    List String :=
  visit.2.filter ((presenceIn t visit.1).isStale cutoff)

section Evict

variable (cutoff : ℚ) (acc : List (String × String) × Table String ChannelPresence)

theorem evictChannel_fst (visit : String × List String) :
    (evictChannel cutoff acc visit).1 = acc.1 ++ (staleIn cutoff acc.2 visit).map (visit.1, ·) := by
  unfold evictChannel staleIn presenceIn
  cases acc.2.lookup visit.1 with
  | none =>
    have hnone : visit.2.filter (ChannelPresence.new.isStale cutoff) = [] :=
      List.filter_eq_nil_iff.mpr fun _ _ => Bool.false_ne_true
    change acc.1 = acc.1 ++ (visit.2.filter (ChannelPresence.new.isStale cutoff)).map _
    rw [hnone, List.map_nil, List.append_nil]
  | some cp => rfl

theorem presenceIn_evictChannel (visit : String × List String) (channel : String) :
    presenceIn (evictChannel cutoff acc visit).2 channel =
      if channel = visit.1 then (staleIn cutoff acc.2 visit).foldl .leave (presenceIn acc.2 visit.1)
      else presenceIn acc.2 channel := by
  unfold evictChannel
  cases hcp : acc.2.lookup visit.1 with
  | none =>
    have hnew : presenceIn acc.2 visit.1 = .new := by
      rw [presenceIn, hcp]
      rfl
    have hnone : staleIn cutoff acc.2 visit = [] := by
      unfold staleIn
      rw [hnew]
      exact List.filter_eq_nil_iff.mpr fun _ _ => Bool.false_ne_true
    rw [hnone]
    dsimp only
    split_ifs with h
    · rw [h]
      rfl
    · rfl
  | some cp =>
    have hcp' : presenceIn acc.2 visit.1 = cp := by
      rw [presenceIn, hcp]
      rfl
    dsimp only
    rw [presenceIn_insert, staleIn, hcp']

/-- The channels are distinct, so what is stale in one is not changed by the turns before. -/
theorem evictChannels (visits : List (String × List String)) (hnodup : (visits.map Prod.fst).Nodup) :
    (visits.foldl (evictChannel cutoff) acc).1 =
        acc.1 ++ visits.flatMap (fun v => (staleIn cutoff acc.2 v).map (v.1, ·)) ∧
      (∀ v ∈ visits, presenceIn (visits.foldl (evictChannel cutoff) acc).2 v.1 =
        (staleIn cutoff acc.2 v).foldl .leave (presenceIn acc.2 v.1)) ∧
      ∀ channel ∉ visits.map Prod.fst,
        presenceIn (visits.foldl (evictChannel cutoff) acc).2 channel = presenceIn acc.2 channel := by
  induction visits generalizing acc with
  | nil => exact ⟨(List.append_nil _).symm, nofun, fun _ _ => rfl⟩
  | cons v visits ih =>
    rw [List.map_cons, List.nodup_cons] at hnodup
    obtain ⟨hfst, hvisited, hothers⟩ := ih (evictChannel cutoff acc v) hnodup.2
    have hkeep : ∀ channel, channel ≠ v.1 →
        presenceIn (evictChannel cutoff acc v).2 channel = presenceIn acc.2 channel :=
      fun channel hne => (presenceIn_evictChannel cutoff acc v channel).trans (if_neg hne)
    have hne : ∀ u ∈ visits, u.1 ≠ v.1 := by
      intro u hu heq
      exact hnodup.1 (List.mem_map.mpr ⟨u, hu, heq⟩)
    have hstale : ∀ u ∈ visits, staleIn cutoff (evictChannel cutoff acc v).2 u =
        staleIn cutoff acc.2 u := by
      intro u hu
      unfold staleIn
      rw [hkeep u.1 (hne u hu)]
    refine ⟨?_, ?_, ?_⟩
    · rw [List.foldl_cons, hfst, evictChannel_fst, List.append_assoc, List.flatMap_cons]
      congr 2
      exact List.flatMap_congr fun u hu => by rw [hstale u hu]
    · intro u hu
      rw [List.foldl_cons]
      rcases List.mem_cons.mp hu with rfl | hu
      · rw [hothers u.1 hnodup.1, presenceIn_evictChannel, if_pos rfl]
      · rw [hvisited u hu, hstale u hu, hkeep u.1 (hne u hu)]
    · intro channel hchannel
      rw [List.map_cons, List.mem_cons, not_or] at hchannel
      rw [List.foldl_cons, hothers channel hchannel.2, hkeep channel hchannel.1]

end Evict

/-- `last_seen` of the member is before the cutoff. -/
def Stale (s : PresenceTracker) (cutoff : ℚ) (channel client : String) : Prop :=
  ∃ info, s.get channel client = some info ∧ info.lastSeen < cutoff

theorem isStale_iff (s : PresenceTracker) (cutoff : ℚ) (channel client : String) :
    (s.presence channel).isStale cutoff client = true ↔ s.Stale cutoff channel client := by
  unfold ChannelPresence.isStale Stale
  rw [get_eq]
  cases (s.presence channel).members.lookup client with
  | none => exact ⟨fun h => absurd h Bool.false_ne_true, fun ⟨_, h, _⟩ => nomatch h⟩
  | some info =>
    refine decide_eq_true_iff.trans ⟨fun h => ⟨info, rfl, h⟩, ?_⟩
    rintro ⟨_, h, hlt⟩
    rwa [Option.some.inj h]

theorem Visits.nodup {s : PresenceTracker} {visits : List (String × List String)}
    (h : s.Visits visits) : (visits.map Prod.fst).Nodup :=
  h.1.nodup_iff.mpr s.channels.keys_nodup

theorem mem_evicted {s : PresenceTracker} {timeout now : ℚ} {visits : List (String × List String)}
    (h : s.Visits visits) (channel client : String) :
    (channel, client) ∈ (s.evictStale timeout now visits).1 ↔
      ∃ v ∈ visits, v.1 = channel ∧ client ∈ staleIn (now - timeout) s.channels v := by
  have hfst : (s.evictStale timeout now visits).1 =
      visits.flatMap fun v => (staleIn (now - timeout) s.channels v).map (v.1, ·) :=
    (evictChannels (now - timeout) ([], s.channels) visits h.nodup).1
  rw [hfst, List.mem_flatMap]
  constructor
  · rintro ⟨v, hv, hmap⟩
    obtain ⟨c, hc, heq⟩ := List.mem_map.mp hmap
    obtain ⟨hchannel, rfl⟩ := Prod.mk.inj heq
    exact ⟨v, hv, hchannel, hc⟩
  · rintro ⟨v, hv, rfl, hc⟩
    exact ⟨v, hv, List.mem_map.mpr ⟨client, hc, rfl⟩⟩

theorem mem_staleIn {s : PresenceTracker} {cutoff : ℚ} {visits : List (String × List String)}
    (h : s.Visits visits) {v : String × List String} (hv : v ∈ visits) (client : String) :
    client ∈ staleIn cutoff s.channels v ↔ s.Stale cutoff v.1 client := by
  unfold staleIn
  rw [List.mem_filter, (h.2 v hv).mem_iff, ← isStale_iff]
  refine and_iff_right_of_imp fun hstale => ?_
  obtain ⟨info, hinfo, -⟩ := (s.isStale_iff _ _ _).mp hstale
  exact AList.mem_keys.mp (Table.mem_iff_lookup.mpr ⟨info, hinfo⟩)

theorem presence_eq_new_of_not_visited {s : PresenceTracker} {visits : List (String × List String)}
    (h : s.Visits visits) {channel : String} (hnot : channel ∉ visits.map Prod.fst) :
    s.presence channel = .new := by
  have hlookup : s.channels.lookup channel = none := by
    rw [AList.lookup_eq_none, AList.mem_keys, ← h.1.mem_iff]
    exact hnot
  rw [presence, presenceIn, hlookup]
  rfl

/-- What an eviction does to one channel. -/
theorem presence_evictStale {s : PresenceTracker} {visits : List (String × List String)}
    (h : s.Visits visits) (timeout now : ℚ) (channel : String) :
    ∃ stale : List String, stale.Nodup ∧
      (∀ client, client ∈ stale ↔ s.Stale (now - timeout) channel client) ∧
      (∀ client, (channel, client) ∈ (s.evictStale timeout now visits).1 ↔ client ∈ stale) ∧
      (s.evictStale timeout now visits).2.presence channel =
        stale.foldl .leave (s.presence channel) := by
  obtain ⟨-, hvisited, hothers⟩ := evictChannels (now - timeout) ([], s.channels) visits h.nodup
  by_cases hmem : channel ∈ visits.map Prod.fst
  · obtain ⟨v, hv, rfl⟩ := List.mem_map.mp hmem
    refine ⟨staleIn (now - timeout) s.channels v, ?_, mem_staleIn h hv, fun client => ?_,
      hvisited v hv⟩
    · exact ((h.2 v hv).nodup_iff.mpr (AList.keys_nodup _)).filter _
    · rw [mem_evicted h]
      constructor
      · rintro ⟨u, hu, heq, hc⟩
        rwa [← List.inj_on_of_nodup_map h.nodup hu hv heq]
      · exact fun hc => ⟨v, hv, rfl, hc⟩
  · refine ⟨[], List.nodup_nil, fun client => ?_, fun client => ?_, hothers channel hmem⟩
    · rw [← isStale_iff, presence_eq_new_of_not_visited h hmem]
      exact ⟨nofun, fun h => absurd h Bool.false_ne_true⟩
    · rw [mem_evicted h]
      refine ⟨?_, nofun⟩
      rintro ⟨u, hu, heq, -⟩
      exact absurd (List.mem_map.mpr ⟨u, hu, heq⟩) hmem

end PresenceTracker

end Hypern.Realtime
