import Hypern.Realtime.Hub

/-! The lists of a client's channels. `track` adds the channel to the client's list whether or not
it is there already, and callers act once for each entry of a list. -/

namespace Hypern.Realtime

open Lib

namespace PresenceTracker

/-- The list holds each channel that the client is present in once, and no other channel. -/
def Once (s : PresenceTracker) (client : String) (channels : List String) : Prop :=
  ∀ channel, channels.count channel = if s.Member channel client then 1 else 0

/-- What a caller learns about the channels of a client. -/
structure ListsOnce (s : PresenceTracker) : Prop where
  clientChannels : ∀ client, s.Once client (s.clientChannels client)
  untrackAll : ∀ client, s.Once client (s.untrackAll client).1
  disconnect : ∀ hub : RealtimeHub, hub.presence = s →
    ∀ client, s.Once client (hub.disconnect client).1

/-- The client is tracked in a channel where it is present. -/
def Rejoins (s : PresenceTracker) (call : PresenceCall) : Prop :=
  ∃ channel client metadata now, call = .track channel client metadata now ∧ s.Member channel client

/-! ## The index by client -/

theorem sublist_retainOthers (index : Table String (List String)) (channel client other : String) :
    (listed (retainOthers index channel client) other).Sublist (listed index other) := by
  rw [listed_retainOthers]
  split_ifs with h
  · rw [h]
    exact List.filter_sublist
  · exact .refl _

theorem sublist_retainAll (evicted : List (String × String)) (index : Table String (List String))
    (client : String) :
    (listed (evicted.foldl (fun index e => retainOthers index e.1 e.2) index) client).Sublist
      (listed index client) := by
  induction evicted generalizing index with
  | nil => exact .refl _
  | cons e evicted ih => exact (ih _).trans (sublist_retainOthers index e.1 e.2 client)

variable {s t : PresenceTracker}

theorem untrackAll_fst (s : PresenceTracker) (client : String) :
    (s.untrackAll client).1 = s.clientChannels client := by
  unfold untrackAll clientChannels
  cases s.channelsByClient.lookup client <;> rfl

theorem clientChannels_track (channel client other : String) (metadata : Option Metadata) (now : ℚ) :
    (s.track channel client metadata now).2.clientChannels other =
      if other = client then s.clientChannels client ++ [channel] else s.clientChannels other := by
  change ((s.channelsByClient.insert client (s.clientChannels client ++ [channel])).lookup other).getD []
    = _
  rw [Table.lookup_insert_eq]
  split_ifs <;> rfl

/-- No other call makes a list longer. -/
theorem sublist_step {call : PresenceCall} (hstep : s.step call = some t)
    (hcall : ∀ channel client metadata now, call ≠ .track channel client metadata now) (client : String) :
    (t.clientChannels client).Sublist (s.clientChannels client) := by
  cases call with
  | track channel other metadata now => exact absurd rfl (hcall channel other metadata now)
  | untrack channel other =>
    cases hstep
    exact sublist_retainOthers s.channelsByClient channel other client
  | untrackAll other =>
    cases hstep
    unfold untrackAll clientChannels
    cases s.channelsByClient.lookup other with
    | none => exact .refl _
    | some left =>
      dsimp only
      rw [Table.lookup_erase_eq]
      split_ifs
      · exact List.nil_sublist _
      · exact .refl _
  | update channel other metadata now =>
    cases hstep
    exact .refl _
  | touch channel other now =>
    cases hstep
    exact .refl _
  | flushDiff channel =>
    cases hstep
    unfold flushDiff
    cases s.channels.lookup channel <;> exact .refl _
  | evictStale timeout now visits =>
    obtain ⟨-, rfl⟩ := step_evictStale hstep
    exact sublist_retainAll _ s.channelsByClient client
  | clear =>
    cases hstep
    exact List.nil_sublist _

/-! ## Lists without duplicates -/

theorem once_iff (h : s.Indexed) (client : String) :
    s.Once client (s.clientChannels client) ↔ (s.clientChannels client).Nodup := by
  rw [List.nodup_iff_count_le_one]
  constructor
  · intro honce channel
    rw [honce channel]
    split_ifs <;> decide
  · intro hle channel
    split_ifs with hmember
    · have hpos := List.count_pos_iff.mpr ((h.agree channel client).mp hmember)
      exact Nat.le_antisymm (hle channel) hpos
    · exact List.count_eq_zero.mpr (mt (h.agree channel client).mpr hmember)

theorem listsOnce_iff (h : s.Indexed) : s.ListsOnce ↔ ∀ client, (s.clientChannels client).Nodup := by
  constructor
  · exact fun hs client => (once_iff h client).mp (hs.clientChannels client)
  · intro hnodup
    have honce : ∀ client, s.Once client (s.clientChannels client) :=
      fun client => (once_iff h client).mpr (hnodup client)
    refine ⟨honce, fun client => ?_, fun hub hhub client => ?_⟩
    · rw [untrackAll_fst]
      exact honce client
    · change s.Once client (hub.presence.untrackAll client).1
      rw [hhub, untrackAll_fst]
      exact honce client

theorem nodup_track_iff (h : s.Indexed) (hs : ∀ client, (s.clientChannels client).Nodup)
    (channel client : String) (metadata : Option Metadata) (now : ℚ) :
    (∀ other, ((s.track channel client metadata now).2.clientChannels other).Nodup) ↔
      ¬ s.Member channel client := by
  constructor
  · intro ht hmember
    have hlist := ht client
    rw [clientChannels_track, if_pos rfl, List.nodup_append] at hlist
    exact hlist.2.2 channel ((h.agree channel client).mp hmember) channel (List.mem_singleton_self _) rfl
  · intro hnew other
    rw [clientChannels_track]
    split_ifs with hother
    · refine List.nodup_append.mpr ⟨hs client, List.nodup_singleton _, fun a ha b hb => ?_⟩
      rw [List.mem_singleton.mp hb]
      rintro rfl
      exact hnew ((h.agree a client).mpr ha)
    · exact hs other

theorem listsOnce_step_iff (h : s.Indexed) (hs : s.ListsOnce) {call : PresenceCall}
    (hstep : s.step call = some t) : t.ListsOnce ↔ ¬ s.Rejoins call := by
  have hnodup := (listsOnce_iff h).mp hs
  rw [listsOnce_iff (h.step hstep)]
  by_cases hcall : ∃ channel client metadata now, call = .track channel client metadata now
  · obtain ⟨channel, client, metadata, now, rfl⟩ := hcall
    cases hstep
    rw [nodup_track_iff h hnodup]
    refine not_congr ⟨fun hmember => ⟨channel, client, metadata, now, rfl, hmember⟩, ?_⟩
    rintro ⟨_, _, _, _, heq, hmember⟩
    cases heq
    exact hmember
  · -- every other call only takes channels out of the lists
    refine iff_of_true (fun client => (hnodup client).sublist (sublist_step hstep ?_ client)) ?_
    · exact fun channel other metadata now heq => hcall ⟨channel, other, metadata, now, heq⟩
    · rintro ⟨channel, other, metadata, now, heq, -⟩
      exact hcall ⟨channel, other, metadata, now, heq⟩

/-- The lists are right all along a run exactly if nobody is tracked where they already are. -/
theorem lists_once_iff (calls : List PresenceCall) :
    Always step ListsOnce new calls ↔ Along step (fun s call => ¬ s.Rejoins call) new calls := by
  have henabled : ∀ (s : PresenceTracker) call, ¬ ¬ s.Rejoins call → ∃ t, s.step call = some t := by
    intro s call h
    obtain ⟨_, _, _, _, rfl, -⟩ := not_not.mp h
    exact ⟨_, rfl⟩
  rw [← along_enabled_iff henabled]
  refine always_iff_along Indexed ((listsOnce_iff .new).mpr fun _ => List.nodup_nil) .new ?_ ?_
  · exact fun s call t h hstep => h.step hstep
  · exact fun s call t h hs hstep => listsOnce_step_iff h hs hstep

/-- A client that comes back to the lobby without having left it. -/
theorem rejoined_listed_twice : ¬ ∀ calls, Always step ListsOnce new calls := by
  intro h
  have hfinal := (h [.track "lobby" "alice" none 0, .track "lobby" "alice" none 1]).final rfl
  have hcount : 2 = 1 := hfinal.clientChannels "alice" "lobby"
  cases hcount

end PresenceTracker

end Hypern.Realtime
