import Mathlib.Data.Set.Card
import Mathlib.Tactic.NormNum
import Hypern.Realtime.Presence

/-! The two indexes of a tracker are inverse to each other: a client is a member of a channel
exactly when the channel is in the client's list. -/

namespace Hypern.Realtime

open Lib

/-! ## The index by client -/

def listed (index : Table String (List String)) (client : String) : List String :=
  (index.lookup client).getD []

def NoEmptyEntry (index : Table String (List String)) : Prop :=
  ∀ client channels, index.lookup client = some channels → channels ≠ []

section ByClient

variable {index : Table String (List String)}

theorem listed_retainOthers (index : Table String (List String)) (channel client other : String) :
    listed (retainOthers index channel client) other =
      if other = client then (listed index client).filter (· ≠ channel) else listed index other := by
  unfold retainOthers listed
  cases hlist : index.lookup client with
  | none =>
    split_ifs with h
    · rw [h, hlist]
      rfl
    · rfl
  | some channels =>
    dsimp only
    split_ifs with hempty h h
    · rw [Table.lookup_erase_eq, if_pos h]
      exact (List.isEmpty_iff.mp hempty).symm
    · rw [Table.lookup_erase_eq, if_neg h]
    · rw [Table.lookup_insert_eq, if_pos h]
      rfl
    · rw [Table.lookup_insert_eq, if_neg h]

theorem NoEmptyEntry.erase (h : NoEmptyEntry index) (client : String) :
    NoEmptyEntry (index.erase client) := by
  intro other channels hlookup
  rw [Table.lookup_erase_eq] at hlookup
  split_ifs at hlookup
  exact h other channels hlookup

theorem NoEmptyEntry.insert (h : NoEmptyEntry index) (client : String) {channels : List String}
    (hne : channels ≠ []) : NoEmptyEntry (index.insert client channels) := by
  intro other channels' hlookup
  rw [Table.lookup_insert_eq] at hlookup
  split_ifs at hlookup
  · rwa [← Option.some.inj hlookup]
  · exact h other channels' hlookup

theorem NoEmptyEntry.retainOthers (h : NoEmptyEntry index) (channel client : String) :
    NoEmptyEntry (retainOthers index channel client) := by
  unfold Realtime.retainOthers
  cases index.lookup client with
  | none => exact h
  | some channels =>
    dsimp only
    split_ifs with hempty
    · exact h.erase client
    · exact h.insert client (List.isEmpty_iff.not.mp hempty)

theorem mem_listed_retainAll (evicted : List (String × String)) (index : Table String (List String))
    (channel client : String) :
    channel ∈ listed (evicted.foldl (fun index e => retainOthers index e.1 e.2) index) client ↔
      channel ∈ listed index client ∧ (channel, client) ∉ evicted := by
  induction evicted generalizing index with
  | nil => exact (and_iff_left nofun).symm
  | cons e evicted ih =>
    rw [List.foldl_cons, ih, listed_retainOthers, List.mem_cons, not_or, ← and_assoc]
    refine and_congr_left' ?_
    split_ifs with h
    · subst h
      rw [List.mem_filter, decide_eq_true_eq]
      exact and_congr_right' ⟨fun hne heq => hne (congrArg Prod.fst heq),
        fun hne heq => hne (Prod.ext heq rfl)⟩
    · exact (and_iff_left fun heq => h (congrArg Prod.snd heq)).symm

theorem NoEmptyEntry.retainAll (evicted : List (String × String)) (h : NoEmptyEntry index) :
    NoEmptyEntry (evicted.foldl (fun index e => Realtime.retainOthers index e.1 e.2) index) := by
  induction evicted generalizing index with
  | nil => exact h
  | cons e evicted ih => exact ih (h.retainOthers e.1 e.2)

end ByClient

namespace PresenceTracker

/-! ## Members after a call -/

def Member (s : PresenceTracker) (channel client : String) : Prop :=
  (s.get channel client).isSome = true

instance (s : PresenceTracker) (channel client : String) : Decidable (s.Member channel client) :=
  inferInstanceAs (Decidable (_ = true))

theorem member_iff {s : PresenceTracker} {channel client : String} :
    s.Member channel client ↔ client ∈ (s.presence channel).members := by
  rw [Member, get_eq, AList.lookup_isSome]

section Members

variable (s : PresenceTracker) (channel client channel' client' : String)

theorem member_track (metadata : Option Metadata) (now : ℚ) :
    (s.track channel client metadata now).2.Member channel' client' ↔
      channel' = channel ∧ client' = client ∨ s.Member channel' client' := by
  rw [member_iff, member_iff, presence_track]
  split_ifs with h
  · subst h
    exact AList.mem_insert _ |>.trans (or_congr_left (and_iff_right rfl).symm)
  · exact (or_iff_right fun hc => h hc.1).symm

theorem mem_leaveIfPresent (cp : ChannelPresence) :
    client' ∈ (cp.leaveIfPresent client).members ↔ client' ≠ client ∧ client' ∈ cp.members := by
  unfold ChannelPresence.leaveIfPresent
  split_ifs with h
  · exact AList.mem_erase
  · refine (and_iff_right_of_imp ?_).symm
    rintro hmem rfl
    exact h hmem

theorem member_untrack :
    (s.untrack channel client).2.Member channel' client' ↔
      s.Member channel' client' ∧ ¬ (channel' = channel ∧ client' = client) := by
  rw [member_iff, member_iff, presence_untrack]
  split_ifs with h
  · subst h
    rw [mem_leaveIfPresent, and_comm]
    exact and_congr_right' (not_congr (and_iff_right rfl).symm)
  · exact (and_iff_left fun hc => h hc.1).symm

theorem member_touchWith (f : PresenceInfo → PresenceInfo) :
    (s.touchWith channel client f).2.Member channel' client' ↔ s.Member channel' client' := by
  rw [member_iff, member_iff, presence_touchWith]
  split_ifs with h
  · subst h
    unfold ChannelPresence.touch
    rw [← AList.lookup_isSome, ← AList.lookup_isSome, Table.lookup_modify_isSome]
  · rfl

theorem member_flushDiff :
    (s.flushDiff channel).2.Member channel' client' ↔ s.Member channel' client' := by
  rw [member_iff, member_iff, presence_flushDiff]
  split_ifs with h
  · rw [h]
  · rfl

/-- The channels that `client` leaves, one after the other. -/
theorem presenceIn_leaveEach (left : List String) (t : Table String ChannelPresence) :
    client' ∈ (presenceIn
        (left.foldl (fun t channel => t.modify channel (·.leaveIfPresent client)) t) channel').members ↔
      client' ∈ (presenceIn t channel').members ∧ ¬ (channel' ∈ left ∧ client' = client) := by
  induction left generalizing t with
  | nil => exact (and_iff_left fun h => nomatch h.1).symm
  | cons channel left ih =>
    rw [List.foldl_cons, ih, presenceIn_leave, List.mem_cons]
    split_ifs with h
    · subst h
      rw [mem_leaveIfPresent]
      tauto
    · tauto

theorem member_untrackAll :
    (s.untrackAll client).2.Member channel' client' ↔
      s.Member channel' client' ∧ ¬ (channel' ∈ s.clientChannels client ∧ client' = client) := by
  rw [member_iff, member_iff]
  unfold untrackAll clientChannels
  cases s.channelsByClient.lookup client with
  | none => exact (and_iff_left fun h => nomatch h.1).symm
  | some left => exact presenceIn_leaveEach client channel' client' left s.channels

theorem member_evictStale {timeout now : ℚ} {visits : List (String × List String)}
    (h : s.Visits visits) :
    (s.evictStale timeout now visits).2.Member channel client ↔
      s.Member channel client ∧ ¬ s.Stale (now - timeout) channel client := by
  obtain ⟨stale, -, hstale, -, hpresence⟩ := presence_evictStale h timeout now channel
  rw [member_iff, member_iff, hpresence, ← AList.lookup_isSome, ChannelPresence.lookup_leaveAll,
    ← hstale client, ← AList.lookup_isSome]
  split_ifs with hmem
  · exact ⟨nofun, fun h => absurd hmem h.2⟩
  · exact (and_iff_left hmem).symm

end Members

/-! ## The invariant -/

structure Indexed (s : PresenceTracker) : Prop where
  agree : ∀ channel client, s.Member channel client ↔ channel ∈ s.clientChannels client
  noEmpty : NoEmptyEntry s.channelsByClient

namespace Indexed

variable {s : PresenceTracker}

theorem new : Indexed PresenceTracker.new := ⟨fun _ _ => ⟨nofun, nofun⟩, nofun⟩

theorem track (h : Indexed s) (channel client : String) (metadata : Option Metadata) (now : ℚ) :
    Indexed (s.track channel client metadata now).2 := by
  refine ⟨fun channel' client' => ?_, h.noEmpty.insert client (List.append_ne_nil_of_right_ne_nil
    _ (List.cons_ne_nil channel []))⟩
  have hlist : (s.track channel client metadata now).2.clientChannels client' =
      if client' = client then s.clientChannels client ++ [channel] else s.clientChannels client' := by
    unfold PresenceTracker.track PresenceTracker.clientChannels
    dsimp only
    rw [Table.lookup_insert_eq]
    split_ifs <;> rfl
  rw [member_track, hlist, h.agree]
  split_ifs with hc
  · rw [hc, List.mem_append, List.mem_singleton, and_iff_left rfl]
    exact or_comm
  · exact or_iff_right fun hboth => hc hboth.2

theorem untrack (h : Indexed s) (channel client : String) : Indexed (s.untrack channel client).2 := by
  refine ⟨fun channel' client' => ?_, h.noEmpty.retainOthers channel client⟩
  have hlist := listed_retainOthers s.channelsByClient channel client client'
  change (s.untrack channel client).2.clientChannels client' = _ at hlist
  rw [member_untrack, hlist, h.agree]
  split_ifs with hc
  · rw [hc, List.mem_filter, decide_eq_true_eq, and_iff_left rfl]
    rfl
  · exact and_iff_left fun hboth => hc hboth.2

theorem untrackAll (h : Indexed s) (client : String) : Indexed (s.untrackAll client).2 := by
  have hlist : ∀ client', (s.untrackAll client).2.clientChannels client' =
      if client' = client then [] else s.clientChannels client' := by
    intro client'
    unfold PresenceTracker.untrackAll PresenceTracker.clientChannels
    cases hleft : s.channelsByClient.lookup client with
    | none =>
      dsimp only
      split_ifs with hc
      · rw [hc, hleft]
        rfl
      · rfl
    | some left =>
      dsimp only
      rw [Table.lookup_erase_eq]
      split_ifs <;> rfl
  refine ⟨fun channel' client' => ?_, ?_⟩
  · rw [member_untrackAll, hlist, h.agree]
    split_ifs with hc
    · rw [hc, and_iff_left rfl, and_not_self_iff]
      exact ⟨nofun, nofun⟩
    · exact and_iff_left fun hboth => hc hboth.2
  · unfold PresenceTracker.untrackAll
    cases s.channelsByClient.lookup client with
    | none => exact h.noEmpty
    | some left => exact h.noEmpty.erase client

theorem evictStale (h : Indexed s) {timeout now : ℚ} {visits : List (String × List String)}
    (hvisits : s.Visits visits) : Indexed (s.evictStale timeout now visits).2 := by
  refine ⟨fun channel client => ?_, h.noEmpty.retainAll _⟩
  obtain ⟨stale, -, hstale, hevicted, -⟩ := presence_evictStale hvisits timeout now channel
  have hlist := mem_listed_retainAll (s.evictStale timeout now visits).1 s.channelsByClient
    channel client
  change channel ∈ (s.evictStale timeout now visits).2.clientChannels client ↔
    channel ∈ s.clientChannels client ∧ _ at hlist
  rw [member_evictStale s channel client hvisits, hlist, hevicted, hstale, h.agree]

theorem step (h : Indexed s) {call : PresenceCall} {t : PresenceTracker}
    (hstep : s.step call = some t) : Indexed t := by
  cases call with
  | track channel client metadata now =>
    cases hstep
    exact h.track channel client metadata now
  | untrack channel client =>
    cases hstep
    exact h.untrack channel client
  | untrackAll client =>
    cases hstep
    exact h.untrackAll client
  | update channel client metadata now =>
    cases hstep
    exact ⟨fun ch c => (member_touchWith s _ _ ch c _).trans (h.agree ch c), h.noEmpty⟩
  | touch channel client now =>
    cases hstep
    exact ⟨fun ch c => (member_touchWith s _ _ ch c _).trans (h.agree ch c), h.noEmpty⟩
  | flushDiff channel =>
    cases hstep
    have hindex : (s.flushDiff channel).2.channelsByClient = s.channelsByClient := by
      unfold flushDiff
      cases s.channels.lookup channel <;> rfl
    refine ⟨fun ch c => ?_, hindex ▸ h.noEmpty⟩
    rw [member_flushDiff, clientChannels, hindex]
    exact h.agree ch c
  | evictStale timeout now visits =>
    obtain ⟨hvisits, rfl⟩ := step_evictStale hstep
    exact h.evictStale hvisits
  | clear =>
    cases hstep
    exact new

theorem of_reaches (h : Reaches PresenceTracker.step .new s) : Indexed s :=
  h.invariant (fun _ _ _ hs hstep => hs.step hstep) new

theorem not_member_untrackAll (h : Indexed s) (channel client : String) :
    ¬ (s.untrackAll client).2.Member channel client := by
  rw [member_untrackAll, h.agree]
  exact fun hmem => hmem.2 ⟨hmem.1, rfl⟩

/-- Every entry of the index stands for a client that is present somewhere. -/
theorem mem_keys_iff (h : Indexed s) (client : String) :
    client ∈ s.channelsByClient.keys ↔ ∃ channel, s.Member channel client := by
  rw [← AList.mem_keys, Table.mem_iff_lookup]
  constructor
  · rintro ⟨channels, hlookup⟩
    obtain ⟨channel, hmem⟩ := List.exists_mem_of_ne_nil _ (h.noEmpty client channels hlookup)
    refine ⟨channel, (h.agree channel client).mpr ?_⟩
    rwa [clientChannels, hlookup]
  · rintro ⟨channel, hmem⟩
    have hlisted := (h.agree channel client).mp hmem
    unfold clientChannels at hlisted
    cases hlookup : s.channelsByClient.lookup client with
    | none =>
      rw [hlookup] at hlisted
      cases hlisted
    | some channels => exact ⟨channels, rfl⟩

theorem totalClients_eq (h : Indexed s) :
    s.totalClients = {client | ∃ channel, s.Member channel client}.ncard := by
  have hset : {client | ∃ channel, s.Member channel client} =
      (s.channelsByClient.keys.toFinset : Set String) := by
    ext client
    rw [List.coe_toFinset]
    exact (h.mem_keys_iff client).symm
  rw [hset, Set.ncard_coe_finset, List.toFinset_card_of_nodup s.channelsByClient.keys_nodup]
  rfl

end Indexed

/-- In every reachable state the two indexes agree, and with them what the other operations
promise: the number of clients, leaving everywhere and eviction. -/
theorem indexes_agree {s : PresenceTracker} (h : Reaches step .new s) :
    (∀ channel client, s.Member channel client ↔ channel ∈ s.clientChannels client) ∧
      NoEmptyEntry s.channelsByClient ∧
      s.totalClients = {client | ∃ channel, s.Member channel client}.ncard ∧
      (∀ channel client, ¬ (s.untrackAll client).2.Member channel client) ∧
      ∀ timeout now visits, s.Visits visits → ∀ channel client,
        (s.evictStale timeout now visits).2.Member channel client ↔
          s.Member channel client ∧ ¬ s.Stale (now - timeout) channel client := by
  have hindexed := Indexed.of_reaches h
  exact ⟨hindexed.agree, hindexed.noEmpty, hindexed.totalClients_eq,
    hindexed.not_member_untrackAll,
    fun _ _ _ hvisits channel client => member_evictStale s channel client hvisits⟩

/-- Two clients in the lobby, one of them since an early time and in the kitchen too. -/
def crowd : PresenceTracker :=
  (((new.track "lobby" "alice" none 1).2.track "lobby" "bob" none 9).2.track
    "kitchen" "alice" none 9).2

def crowdVisits : List (String × List String) := [("lobby", ["bob", "alice"]), ("kitchen", ["alice"])]

theorem crowd_indexes_agree :
    Reaches step .new crowd ∧ crowd.Visits crowdVisits ∧
      crowd.totalClients = 2 ∧
      (∀ channel client, crowd.Member channel client ↔ channel ∈ crowd.clientChannels client) ∧
      ¬ (crowd.evictStale 5 10 crowdVisits).2.Member "lobby" "alice" ∧
      (crowd.evictStale 5 10 crowdVisits).2.Member "kitchen" "alice" := by
  have hreaches : Reaches step .new crowd :=
    ⟨[.track "lobby" "alice" none 1, .track "lobby" "bob" none 9,
      .track "kitchen" "alice" none 9], rfl⟩
  have hvisits : crowd.Visits crowdVisits := by decide +kernel
  have hagree := indexes_agree hreaches
  refine ⟨hreaches, hvisits, by decide +kernel, hagree.1, ?_, ?_⟩
  · rw [hagree.2.2.2.2 5 10 _ hvisits]
    refine fun h => h.2 ⟨.new "alice" "lobby" none 1, rfl, ?_⟩
    change (1 : ℚ) < 10 - 5
    norm_num
  · rw [hagree.2.2.2.2 5 10 _ hvisits]
    refine ⟨rfl, ?_⟩
    rintro ⟨info, hinfo, hlt⟩
    obtain rfl : PresenceInfo.new "alice" "kitchen" none 9 = info := Option.some.inj hinfo
    change (9 : ℚ) < 10 - 5 at hlt
    norm_num at hlt

end PresenceTracker

end Hypern.Realtime
