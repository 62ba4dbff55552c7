import Hypern.Realtime.Presence

/-! Which entries of `channels` a tracker holds. An entry can become empty only when its last changes
are flushed, and `flush_diff` does not look. -/

namespace Hypern.Realtime

open Lib

namespace ChannelPresence

/-- There is a member, or a join or a leave that has not been reported yet. -/
def InUse (cp : ChannelPresence) : Prop :=
  (∃ client, client ∈ cp.members) ∨ cp.pendingJoins ≠ [] ∨ cp.pendingLeaves ≠ []

variable {cp : ChannelPresence}

theorem inUse_iff : cp.InUse ↔ cp.idle = false := by
  have hkeys : cp.members.keys.isEmpty = false ↔ ∃ client, client ∈ cp.members := by
    rw [List.isEmpty_eq_false_iff_exists_mem]
    exact exists_congr fun client => AList.mem_keys.symm
  unfold InUse idle
  rw [Bool.and_eq_false_iff, Bool.and_eq_false_iff, hkeys, List.isEmpty_eq_false_iff,
    List.isEmpty_eq_false_iff, or_assoc]

theorem InUse.join (cp : ChannelPresence) (client : String) (info : PresenceInfo) :
    (cp.join client info).InUse :=
  .inl ⟨client, (AList.mem_insert _).mpr (.inl rfl)⟩

theorem InUse.leave (cp : ChannelPresence) (client : String) : (cp.leave client).InUse :=
  .inr (.inr (List.append_ne_nil_of_right_ne_nil _ (List.cons_ne_nil client [])))

theorem InUse.leaveIfPresent (h : cp.InUse) (client : String) : (cp.leaveIfPresent client).InUse := by
  unfold ChannelPresence.leaveIfPresent
  split_ifs
  · exact .leave cp client
  · exact h

theorem InUse.touch (h : cp.InUse) (client : String) (f : PresenceInfo → PresenceInfo) :
    (cp.touch client f).InUse := by
  refine h.imp_left ?_
  rintro ⟨other, hmem⟩
  refine ⟨other, ?_⟩
  rw [← AList.lookup_isSome] at hmem ⊢
  exact (Table.lookup_modify_isSome f).trans hmem

theorem InUse.leaveAll (h : cp.InUse) (clients : List String) : (clients.foldl .leave cp).InUse := by
  induction clients generalizing cp with
  | nil => exact h
  | cons client clients ih => exact ih (.leave cp client)

end ChannelPresence

/-- Every entry is in use. -/
def AllInUse (t : Table String ChannelPresence) : Prop :=
  ∀ channel cp, t.lookup channel = some cp → cp.InUse

namespace AllInUse

variable {t : Table String ChannelPresence}

theorem insert (h : AllInUse t) (channel : String) {cp : ChannelPresence} (hcp : cp.InUse) :
    AllInUse (t.insert channel cp) := by
  intro other cp' hlookup
  rw [Table.lookup_insert_eq] at hlookup
  split_ifs at hlookup
  · cases hlookup
    exact hcp
  · exact h other cp' hlookup

theorem erase (h : AllInUse t) (channel : String) : AllInUse (t.erase channel) := by
  intro other cp hlookup
  rw [Table.lookup_erase_eq] at hlookup
  split_ifs at hlookup
  exact h other cp hlookup

theorem modify (h : AllInUse t) (channel : String) {f : ChannelPresence → ChannelPresence}
    (hf : ∀ cp, cp.InUse → (f cp).InUse) : AllInUse (t.modify channel f) := by
  unfold Table.modify
  cases hlookup : t.lookup channel with
  | none => exact h
  | some cp => exact h.insert channel (hf cp (h channel cp hlookup))

theorem leaveEach (h : AllInUse t) (left : List String) (client : String) :
    AllInUse (left.foldl (fun t channel => t.modify channel (·.leaveIfPresent client)) t) := by
  induction left generalizing t with
  | nil => exact h
  | cons channel left ih => exact ih (h.modify channel fun cp hcp => hcp.leaveIfPresent client)

theorem evictChannel (cutoff : ℚ) (acc : List (String × String) × Table String ChannelPresence)
    (h : AllInUse acc.2) (visit : String × List String) :
    AllInUse (PresenceTracker.evictChannel cutoff acc visit).2 := by
  unfold PresenceTracker.evictChannel
  cases hlookup : acc.2.lookup visit.1 with
  | none => exact h
  | some cp => exact h.insert visit.1 ((h visit.1 cp hlookup).leaveAll _)

theorem evictChannels (cutoff : ℚ) (acc : List (String × String) × Table String ChannelPresence)
    (h : AllInUse acc.2) (visits : List (String × List String)) :
    AllInUse (visits.foldl (PresenceTracker.evictChannel cutoff) acc).2 := by
  induction visits generalizing acc with
  | nil => exact h
  | cons visit visits ih => exact ih _ (evictChannel cutoff acc h visit)

end AllInUse

namespace PresenceTracker

/-- The diff of a channel without members is flushed. -/
def FlushesEmpty (s : PresenceTracker) (call : PresenceCall) : Prop :=
  ∃ channel cp, call = .flushDiff channel ∧ s.channels.lookup channel = some cp ∧
    ∀ client, client ∉ cp.members

variable {s t : PresenceTracker}

theorem allInUse_untrack (h : AllInUse s.channels) (channel client : String) :
    AllInUse (s.untrack channel client).2.channels := by
  have hleft : AllInUse (s.channels.modify channel (·.leaveIfPresent client)) :=
    h.modify channel fun cp hcp => hcp.leaveIfPresent client
  unfold untrack
  dsimp only
  cases (s.channels.modify channel (·.leaveIfPresent client)).lookup channel with
  | none => exact hleft
  | some cp =>
    dsimp only
    split_ifs
    · exact hleft.erase channel
    · exact hleft

theorem allInUse_flushDiff_iff (h : AllInUse s.channels) (channel : String) :
    AllInUse (s.flushDiff channel).2.channels ↔ ¬ s.FlushesEmpty (.flushDiff channel) := by
  unfold flushDiff
  cases hlookup : s.channels.lookup channel with
  | none =>
    refine iff_of_true h ?_
    rintro ⟨other, cp, heq, hother, -⟩
    cases heq
    exact nomatch hlookup.symm.trans hother
  | some cp =>
    constructor
    · rintro hflushed ⟨other, cp', heq, hother, hempty⟩
      cases heq
      cases hlookup.symm.trans hother
      rcases hflushed channel _ (AList.lookup_insert _) with ⟨client, hmem⟩ | hjoins | hleaves
      · exact hempty client hmem
      · exact hjoins rfl
      · exact hleaves rfl
    · -- with the pending lists gone only a member can keep the entry in use
      intro hgood
      refine h.insert channel (.inl ?_)
      by_contra hnone
      exact hgood ⟨channel, cp, rfl, hlookup, not_exists.mp hnone⟩

theorem allInUse_step_iff (h : AllInUse s.channels) {call : PresenceCall}
    (hstep : s.step call = some t) : AllInUse t.channels ↔ ¬ s.FlushesEmpty call := by
  cases call with
  | track channel client metadata now =>
    cases hstep
    exact iff_of_true (h.insert channel (.join _ client _)) nofun
  | untrack channel client =>
    cases hstep
    exact iff_of_true (allInUse_untrack h channel client) nofun
  | untrackAll client =>
    cases hstep
    refine iff_of_true ?_ nofun
    unfold untrackAll
    cases s.channelsByClient.lookup client with
    | none => exact h
    | some left => exact h.leaveEach left client
  | update channel client metadata now =>
    cases hstep
    exact iff_of_true (h.modify channel fun cp hcp => hcp.touch client _) nofun
  | touch channel client now =>
    cases hstep
    exact iff_of_true (h.modify channel fun cp hcp => hcp.touch client _) nofun
  | flushDiff channel =>
    cases hstep
    exact allInUse_flushDiff_iff h channel
  | evictStale timeout now visits =>
    obtain ⟨-, rfl⟩ := step_evictStale hstep
    exact iff_of_true (AllInUse.evictChannels _ ([], s.channels) h visits) nofun
  | clear =>
    cases hstep
    exact iff_of_true nofun nofun

/-- All entries are in use all along a run exactly if no diff is flushed of a channel that has lost
all its members. -/
theorem allInUse_iff (calls : List PresenceCall) :
    Always step (fun s => AllInUse s.channels) new calls ↔
      Along step (fun s call => ¬ s.FlushesEmpty call) new calls := by
  have henabled : ∀ (s : PresenceTracker) call, ¬ ¬ s.FlushesEmpty call →
      ∃ t, s.step call = some t := by
    intro s call h
    obtain ⟨_, _, rfl, -⟩ := not_not.mp h
    exact ⟨_, rfl⟩
  rw [← along_enabled_iff henabled]
  exact always_iff_along (fun _ => True) nofun trivial (fun _ _ _ _ _ => trivial)
    fun s call t _ h hstep => allInUse_step_iff h hstep

/-- The lobby after its only client has left and the diff has been sent. -/
theorem flushed_lobby_stays : ¬ ∀ calls, Always step (fun s => AllInUse s.channels) new calls := by
  intro h
  have hfinal := (h [.track "lobby" "alice" none 0, .untrack "lobby" "alice", .flushDiff "lobby"]).final rfl
  rcases hfinal "lobby" ⟨∅, [], []⟩ rfl with ⟨client, hmem⟩ | hjoins | hleaves
  · exact AList.notMem_empty client hmem
  · exact hjoins rfl
  · exact hleaves rfl

end PresenceTracker

end Hypern.Realtime
