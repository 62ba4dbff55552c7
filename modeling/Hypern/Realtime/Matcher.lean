import Hypern.Realtime.Channel

/-! The topic matcher of a manager beside its channels. `subscribe` and `unsubscribe` keep the
two in step; a channel that is removed leaves its subscribers in the matcher. -/

namespace Hypern.Realtime

open Lib

namespace ChannelManager

/-- A client is registered under a pattern exactly if the channel of this name exists and has
it as a subscriber. -/
def MatcherAgrees (s : ChannelManager) : Prop :=
  ∀ name client, client ∈ s.topicMatcher.clients name ↔
    ∃ inner, s.channels.lookup name = some inner ∧ client ∈ inner.subscribers

/-- The channels that the call removes have no subscribers. -/
def RemovesEmpty (s : ChannelManager) : ChannelCall → Prop
  | .removeChannel name => ∀ inner, s.channels.lookup name = some inner → inner.subscribers = ∅
  | .clear => ∀ name inner, s.channels.lookup name = some inner → inner.subscribers = ∅
  | _ => True

variable {s t : ChannelManager}

theorem matcherAgrees_iff :
    s.MatcherAgrees ↔ ∀ name, s.topicMatcher.clients name = s.subscribers name := by
  unfold MatcherAgrees
  refine forall_congr' fun name => ?_
  rw [Finset.ext_iff]
  exact forall_congr' fun client => by rw [mem_subscribers]

theorem subscribers_eq_empty_iff {name : String} : s.subscribers name = ∅ ↔
    ∀ inner, s.channels.lookup name = some inner → inner.subscribers = ∅ := by
  unfold subscribers
  cases s.channels.lookup name with
  | none => exact ⟨fun _ => nofun, fun _ => rfl⟩
  | some inner =>
    exact ⟨fun h _ heq => Option.some.inj heq ▸ h, fun h => h inner rfl⟩

theorem topicMatcher_createChannel (name : String) (bufferSize : Option Nat)
    (metadata : Option Metadata) :
    (s.createChannel name bufferSize metadata).2.topicMatcher = s.topicMatcher := by
  unfold createChannel
  split_ifs
  · rfl
  · cases ringCapacity (bufferSize.getD s.defaultBufferSize) <;> rfl

theorem topicMatcher_removeChannel (name : String) :
    (s.removeChannel name).2.topicMatcher = s.topicMatcher := by
  unfold removeChannel
  cases s.channels.lookup name <;> rfl

theorem topicMatcher_unsubscribe (name client : String) :
    (s.unsubscribe name client).2.topicMatcher = (s.topicMatcher.unsubscribe name client).2 := by
  unfold unsubscribe
  dsimp only
  cases s.channels.lookup name <;> rfl

theorem clients_subscribe (hs : ∀ name, s.topicMatcher.clients name = s.subscribers name)
    (name client other : String) :
    (s.subscribe name client).2.topicMatcher.clients other =
      (s.subscribe name client).2.subscribers other := by
  cases hlookup : s.channels.lookup name with
  | none =>
    have hsame : (s.subscribe name client).2 = s := by
      unfold subscribe
      rw [hlookup]
    rw [hsame, hs]
  | some inner =>
    have hmatcher : (s.subscribe name client).2.topicMatcher = s.topicMatcher.subscribe name client := by
      unfold subscribe
      rw [hlookup]
    rw [hmatcher, TopicMatcher.clients_subscribe, subscribers_subscribe hlookup, hs, hs]

/-- The subscribers of the removed channel stay in the matcher. -/
theorem clients_removeChannel_iff (hs : ∀ name, s.topicMatcher.clients name = s.subscribers name)
    (name : String) :
    (∀ other, (s.removeChannel name).2.topicMatcher.clients other =
      (s.removeChannel name).2.subscribers other) ↔ s.subscribers name = ∅ := by
  rw [topicMatcher_removeChannel]
  constructor
  · intro h
    rw [← hs, h, subscribers_removeChannel, if_pos rfl]
  · intro hempty other
    rw [hs, subscribers_removeChannel]
    split_ifs with h
    · rw [h, hempty]
    · rfl

/-- What a call does to a name in the two places; the effects agree for all calls but the two
that remove channels. -/
theorem step_matcherAgrees (hs : s.MatcherAgrees) {call : ChannelCall}
    (hstep : s.step call = some t) : t.MatcherAgrees ↔ s.RemovesEmpty call := by
  rw [matcherAgrees_iff] at hs ⊢
  cases call with
  | createChannel name bufferSize metadata =>
    cases hstep
    refine iff_of_true (fun other => ?_) trivial
    rw [topicMatcher_createChannel, subscribers_createChannel, hs]
  | removeChannel name =>
    cases hstep
    -- the channel goes and its entry in the matcher stays
    exact (clients_removeChannel_iff hs name).trans subscribers_eq_empty_iff
  | subscribe name client =>
    cases hstep
    exact iff_of_true (clients_subscribe hs name client) trivial
  | unsubscribe name client =>
    cases hstep
    refine iff_of_true (fun other => ?_) trivial
    rw [topicMatcher_unsubscribe, TopicMatcher.clients_unsubscribe, subscribers_unsubscribe, hs, hs]
  | publish name message =>
    cases hstep
    refine iff_of_true (fun other => ?_) trivial
    obtain ⟨hsub, hmatcher⟩ := subscribers_sends (s.publish_sends name message) other
    rw [hsub, hmatcher, hs]
  | publishToTopic topic message order =>
    obtain rfl := step_publishToTopic hstep
    refine iff_of_true (fun other => ?_) trivial
    obtain ⟨hsub, hmatcher⟩ := subscribers_sends (s.publishToTopic_sends topic message order) other
    rw [hsub, hmatcher, hs]
  | clear =>
    cases hstep
    refine forall_congr' fun name => Iff.trans ?_ subscribers_eq_empty_iff
    change s.topicMatcher.clients name = ∅ ↔ _
    rw [hs]
  | tryRecv i =>
    obtain ⟨r, -, rfl⟩ := Option.map_eq_some_iff.mp hstep
    exact iff_of_true hs trivial
  | drain i =>
    obtain ⟨r, -, rfl⟩ := Option.map_eq_some_iff.mp hstep
    exact iff_of_true hs trivial
  | drop i =>
    cases hstep
    exact iff_of_true hs trivial

/-- The runs in which the matcher always agrees with the channels are those in which only
channels without subscribers are removed. -/
theorem matcherAgrees_iff_removesEmpty (defaultBufferSize : Nat) (calls : List ChannelCall) :
    Always step MatcherAgrees (new defaultBufferSize) calls ↔
      Along step (fun s call => ∀ t, step s call = some t → RemovesEmpty s call)
        (new defaultBufferSize) calls := by
  refine always_iff_along (fun _ => True) ?_ trivial (fun _ _ _ _ _ => trivial) ?_
  · exact matcherAgrees_iff.mpr fun _ => rfl
  · exact fun s call t _ hs hstep => step_matcherAgrees hs hstep

/-- A subscriber of a removed channel is still registered. -/
theorem removed_subscriber_registered :
    ¬ ∀ (defaultBufferSize : Nat) (s : ChannelManager), Reaches step (new defaultBufferSize) s →
      s.MatcherAgrees := by
  intro h
  have hagrees := h 256 _ ⟨[.createChannel "chat" none none, .subscribe "chat" "alice",
    .removeChannel "chat"], rfl⟩ "chat" "alice"
  obtain ⟨inner, hlookup, -⟩ := hagrees.mp (by decide +kernel)
  exact absurd (Table.mem_iff_lookup.mpr ⟨inner, hlookup⟩) (by decide +kernel)

end ChannelManager

end Hypern.Realtime
