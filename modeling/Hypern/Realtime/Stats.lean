import Mathlib.Algebra.BigOperators.Group.List.Basic
import Mathlib.Data.Finset.Card
import Hypern.Lib.Ledger
import Hypern.Realtime.Delivery
import Hypern.Realtime.SendMany

/-! What the managers report: `stats` and `global_stats` of `broadcast.rs`, `get_stats` of
`channel.rs`. The counters behind them stand in the channels, what they count happens on handles. -/

namespace Hypern.Realtime

open Lib Python

@[ext]
structure BroadcastStats where
  totalSent : Nat
  totalDropped : Nat
  totalDeduped : Nat
  activeSubscribers : Nat
  channelCount : Nat
  deriving DecidableEq

namespace BroadcastStats

instance : Zero BroadcastStats := ⟨⟨0, 0, 0, 0, 0⟩⟩

instance : Add BroadcastStats :=
  ⟨fun a b => ⟨a.totalSent + b.totalSent, a.totalDropped + b.totalDropped,
    a.totalDeduped + b.totalDeduped, a.activeSubscribers + b.activeSubscribers,
    a.channelCount + b.channelCount⟩⟩

instance : AddMonoid BroadcastStats where
  add_assoc _ _ _ := BroadcastStats.ext (Nat.add_assoc ..) (Nat.add_assoc ..) (Nat.add_assoc ..)
    (Nat.add_assoc ..) (Nat.add_assoc ..)
  zero_add _ := BroadcastStats.ext (Nat.zero_add _) (Nat.zero_add _) (Nat.zero_add _)
    (Nat.zero_add _) (Nat.zero_add _)
  add_zero _ := rfl
  nsmul := nsmulRec

/-- One turn of the loop of `global_stats`. -/
def accumulate (stats : BroadcastStats) (entry : BroadcastInner) : BroadcastStats :=
  { stats with
    totalSent := stats.totalSent + entry.totalSent
    totalDropped := stats.totalDropped + entry.totalDropped
    totalDeduped := stats.totalDeduped + entry.totalDeduped
    activeSubscribers := stats.activeSubscribers + entry.subscriberCount }

end BroadcastStats

def BroadcastInner.stats (channel : BroadcastInner) : BroadcastStats :=
  ⟨channel.totalSent, channel.totalDropped, channel.totalDeduped, channel.subscriberCount, 1⟩

namespace RealtimeBroadcast

variable (s : RealtimeBroadcast)

def stats (name : String) : Except PyExc BroadcastStats :=
  match s.channels.lookup name with
  | none => .error (noSuchBroadcast name)
  | some channel => .ok channel.stats

def globalStats : BroadcastStats :=
  s.channels.entries.foldl (fun stats entry => stats.accumulate entry.2)
    { (0 : BroadcastStats) with channelCount := s.channels.entries.length }

/-- The subscriber handles of the channel that have not been dropped. -/
def liveHandles (name : String) : Nat :=
  match s.channels.lookup name with
  | none => 0
  | some channel => s.exchange.receivers channel.ring

structure Truthful : Prop where
  active : ∀ name stats, s.stats name = .ok stats → stats.activeSubscribers = s.liveHandles name
  global : s.globalStats = (s.channels.keys.filterMap fun name => (s.stats name).toOption).sum

/-- A live handle is dropped while its channel exists. -/
def DropsListener (call : BroadcastCall) : Prop :=
  ∃ i h name channel, call = .drop i ∧ s.exchange.handles[i]? = some h ∧ h.live = true ∧
    s.channels.lookup name = some channel ∧ channel.ring = h.ring

end RealtimeBroadcast

structure ChannelStats where
  name : String
  subscriberCount : Nat
  totalMessages : Nat
  droppedMessages : Nat
  metadata : Metadata

/-- The sum of a weight over the handles of a channel, dropped ones included. -/
def Exchange.tally {K M : Type*} (weight : Handle K M → Nat) (e : Exchange K M) (ring : Nat) : Nat :=
  (e.handles.map fun h => if h.ring = ring then weight h else 0).sum

/-- What the handles of a channel have reported as missed. -/
def Exchange.missed {K M : Type*} (e : Exchange K M) (ring : Nat) : Nat :=
  e.tally (fun h => h.reader.missed) ring

namespace ChannelManager

variable (s : ChannelManager)

def getStats (name : String) : Except PyExc ChannelStats :=
  match s.channels.lookup name with
  | none => .error (noSuchChannel name)
  | some channel =>
    .ok ⟨name, channel.subscribers.card, channel.totalMessages, channel.droppedMessages,
      channel.metadata⟩

/-- The sum of `missed_count` over the handles of the channel. -/
def missedOn (name : String) : Nat :=
  match s.channels.lookup name with
  | none => 0
  | some channel => s.exchange.missed channel.ring

def Truthful : Prop :=
  ∀ name stats, s.getStats name = .ok stats → stats.droppedMessages = s.missedOn name

/-- A handle is read that has been overtaken, while its channel exists. -/
def LearnsOfLag (call : ChannelCall) : Prop :=
  ∃ i h r name channel, (call = .tryRecv i ∨ call = .drain i) ∧
    s.exchange.handles[i]? = some h ∧ h.live = true ∧ s.exchange.rings[h.ring]? = some r ∧
    s.channels.lookup name = some channel ∧ channel.ring = h.ring ∧
    r.overwritten h.reader.next ≠ 0

end ChannelManager

/-! ## Sums over the handles -/

theorem sum_map_set {α : Type*} (f : α → Nat) {l : List α} {i : Nat} {a : α} (h : l[i]? = some a)
    (b : α) : ((l.set i b).map f).sum + f a = (l.map f).sum + f b := by
  induction l generalizing i with
  | nil => cases h
  | cons x l ih =>
    cases i with
    | zero =>
      cases h
      simp only [List.set_cons_zero, List.map_cons, List.sum_cons]
      omega
    | succ i =>
      have hrest := ih (i := i) h
      simp only [List.set_cons_succ, List.map_cons, List.sum_cons]
      omega

namespace Exchange

variable {K M : Type*} (weight : Handle K M → Nat) (e : Exchange K M) (ring : Nat)

theorem receivers_eq_tally :
    e.receivers ring = e.tally (fun h => if h.live then 1 else 0) ring := by
  unfold receivers tally
  induction e.handles with
  | nil => rfl
  | cons h handles ih =>
    rw [List.countP_cons, List.map_cons, List.sum_cons, ih, Nat.add_comm]
    by_cases hring : h.ring = ring <;> cases hlive : h.live <;> simp [hring, hlive]

theorem tally_subscribe (other : Nat) (label : K) :
    (e.subscribe other label).tally weight ring = e.tally weight ring +
      if other = ring then weight (.new label other (e.tail other)) else 0 := by
  unfold tally subscribe
  rw [List.map_append, List.sum_append]
  exact congrArg _ (Nat.add_zero _)

theorem tally_send (hweight : ∀ other msg h, weight (h.published other msg) = weight h) (other : Nat)
    (msg : M) : (e.send other msg).2.tally weight ring = e.tally weight ring := by
  unfold tally send
  rw [List.map_map]
  refine congrArg List.sum (List.map_congr_left fun h _ => ?_)
  have hring : (h.published other msg).ring = h.ring := by
    unfold Handle.published
    split_ifs <;> rfl
  rw [Function.comp_apply, hring, hweight]

variable {e}

/-- One handle is replaced by a later state of it. -/
theorem tally_set {i : Nat} {h : Handle K M} (hi : e.handles[i]? = some h) (h' : Handle K M)
    (hring : h'.ring = h.ring) :
    tally weight { e with handles := e.handles.set i h' } ring + (if h.ring = ring then weight h else 0) =
      e.tally weight ring + if h.ring = ring then weight h' else 0 := by
  have hset := sum_map_set (fun h => if h.ring = ring then weight h else 0) hi h'
  rw [hring] at hset
  exact hset

variable {ring}

theorem tally_set_of_ne {i : Nat} {h : Handle K M} (hi : e.handles[i]? = some h) (h' : Handle K M)
    (hring : h'.ring = h.ring) (hne : ring ≠ h.ring) :
    tally weight { e with handles := e.handles.set i h' } ring = e.tally weight ring := by
  have hset := tally_set weight ring hi h' hring
  rwa [if_neg (Ne.symm hne), if_neg (Ne.symm hne), Nat.add_zero, Nat.add_zero] at hset

theorem tally_set_self_iff {i : Nat} {h : Handle K M} (hi : e.handles[i]? = some h)
    (h' : Handle K M) (hring : h'.ring = h.ring) :
    tally weight { e with handles := e.handles.set i h' } h.ring = e.tally weight h.ring ↔
      weight h' = weight h := by
  have hset := tally_set weight h.ring hi h' hring
  rw [if_pos rfl, if_pos rfl] at hset
  omega

theorem Kept.ring_lt (h : Kept e) {x : Handle K M} (hx : x ∈ e.handles) : x.ring < e.rings.length := by
  obtain ⟨r, hr, -⟩ := h x hx
  exact (List.getElem?_eq_some_iff.mp hr).1

theorem drop_eq {i : Nat} {h : Handle K M} (hi : e.handles[i]? = some h) :
    e.drop i = { e with handles := e.handles.set i { h with live := false } } := by
  unfold drop
  rw [List.modify_eq_set_getElem?, hi]
  rfl

theorem drop_none {i : Nat} (hi : e.handles[i]? = none) : e.drop i = e := by
  unfold drop
  rw [List.modify_eq_set_getElem?, hi]
  rfl

theorem callOn_of_live {α : Type*} {i : Nat} {h : Handle K M} {r : RingBuffer M}
    (hi : e.handles[i]? = some h) (hr : e.rings[h.ring]? = some r) (hlive : h.live = true)
    (f : RingBuffer M → Handle K M → α × Handle K M) :
    e.callOn i f = some ((f r h).1, { e with handles := e.handles.set i (f r h).2 }) := by
  unfold callOn
  rw [hi]
  dsimp only
  rw [hr]
  exact if_pos hlive

end Exchange

/-! ## Broadcast channels -/

theorem BroadcastStats.foldl_accumulate (entries : List (Sigma fun _ : String => BroadcastInner))
    (stats : BroadcastStats) :
    entries.foldl (fun stats entry => stats.accumulate entry.2)
        { stats with channelCount := stats.channelCount + entries.length } =
      stats + (entries.map fun entry => entry.2.stats).sum := by
  induction entries generalizing stats with
  | nil => rfl
  | cons entry entries ih =>
    have hcount : stats.channelCount + (entries.length + 1) =
        stats.channelCount + 1 + entries.length := by omega
    rw [List.map_cons, List.sum_cons, ← add_assoc, ← ih, List.foldl_cons]
    exact congrArg (fun n => entries.foldl _ (BroadcastStats.mk _ _ _ _ n)) hcount

namespace RealtimeBroadcast

variable (s : RealtimeBroadcast)

theorem globalStats_eq :
    s.globalStats = (s.channels.keys.filterMap fun name => (s.stats name).toOption).sum := by
  have hkeys : (s.channels.keys.filterMap fun name => (s.stats name).toOption) =
      s.channels.entries.map fun entry => entry.2.stats := by
    rw [AList.keys, List.keys, List.filterMap_map, ← List.filterMap_eq_map]
    refine List.filterMap_congr fun entry hentry => ?_
    have hlookup : s.channels.lookup entry.1 = some entry.2 :=
      AList.mem_lookup_iff.mpr hentry
    rw [Function.comp_apply, stats, hlookup]
    rfl
  have hzero : (0 : BroadcastStats).channelCount + s.channels.entries.length =
      s.channels.entries.length := Nat.zero_add _
  have hfold := BroadcastStats.foldl_accumulate s.channels.entries 0
  rw [hzero, zero_add] at hfold
  rw [hkeys, ← hfold]
  rfl

/-- The counters of subscribers, beside the handles they count. -/
def ledger : Ledger String where
  entries name := (s.channels.lookup name).map fun channel => (channel.ring, channel.subscriberCount)
  total := s.exchange.receivers
  opened := s.exchange.rings.length

variable {s} {t : RealtimeBroadcast} {name : String} {channel : BroadcastInner}

theorem ledger_insert (name : String) (channel' : BroadcastInner) (e : Exchange String String) :
    (ledger ⟨s.channels.insert name channel', e⟩).entries =
      Function.update s.ledger.entries name (some (channel'.ring, channel'.subscriberCount)) :=
  Table.map_lookup_insert s.channels name channel' fun channel =>
    (channel.ring, channel.subscriberCount)

/-- A channel that is changed in nothing that the ledger shows. -/
theorem keeps_update (h : s.channels.lookup name = some channel) (channel' : BroadcastInner)
    (hring : channel'.ring = channel.ring)
    (hcount : channel'.subscriberCount = channel.subscriberCount) {e : Exchange String String}
    (he : ∀ ring, e.receivers ring = s.exchange.receivers ring)
    (hopened : s.exchange.rings.length ≤ e.rings.length) :
    Ledger.Keeps s.ledger (ledger ⟨s.channels.insert name channel', e⟩) := by
  have hentry : s.ledger.entries name = some (channel'.ring, channel'.subscriberCount) := by
    rw [hring, hcount]
    exact congrArg (Option.map _) h
  exact .rewrite hentry (ledger_insert ..) he hopened

theorem keeps_sendOn (h : s.channels.lookup name = some channel) (channel' : BroadcastInner)
    (hring : channel'.ring = channel.ring) (hcount : channel'.subscriberCount = channel.subscriberCount)
    (message : String) : Ledger.Keeps s.ledger
      (ledger ⟨s.channels.insert name channel', (s.exchange.send channel'.ring message).2⟩) :=
  keeps_update h channel' hring hcount (fun ring => Exchange.receivers_send _ _ _ ring)
    (Exchange.Move.send s.exchange channel'.ring message).length_le

theorem keeps_send (name message : String) (messageId : Option String) :
    Ledger.Keeps s.ledger (s.send name message messageId).2.ledger := by
  unfold send
  cases hlookup : s.channels.lookup name with
  | none => exact .refl _
  | some channel =>
    dsimp only
    cases hdedup : channel.dedup messageId with
    | none => exact keeps_update hlookup { channel with
        totalDeduped := channel.totalDeduped + 1 } rfl rfl (fun _ => rfl) (Nat.le_refl _)
    | some kept =>
      obtain ⟨ids, rfl⟩ := BroadcastInner.dedup_eq_some hdedup
      dsimp only
      split_ifs
      · exact keeps_sendOn hlookup { channel with
          recentIds := ids, totalSent := channel.totalSent + 1 } rfl rfl message
      · cases channel.config.policy with
        | error => exact keeps_sendOn hlookup { channel with
            recentIds := ids, totalSent := channel.totalSent + 1 } rfl rfl message
        | dropOldest => exact keeps_sendOn hlookup { channel with
            recentIds := ids, totalSent := channel.totalSent + 1
            totalDropped := channel.totalDropped + 1 } rfl rfl message

theorem keeps_sendMany (names : List String) (message : String)
    (acc : Table String Nat × RealtimeBroadcast) :
    Ledger.Keeps acc.2.ledger (names.foldl (sendOne message) acc).2.ledger := by
  induction names generalizing acc with
  | nil => exact .refl _
  | cons name names ih =>
    refine Ledger.Keeps.trans ?_ (ih _)
    unfold sendOne
    cases hlookup : acc.2.channels.lookup name with
    | none => exact .refl _
    | some channel => exact keeps_sendOn hlookup { channel with
        totalSent := channel.totalSent + 1 } rfl rfl message

theorem keeps_remove (name : String) : Ledger.Keeps s.ledger (s.remove name).2.ledger := by
  unfold remove
  cases s.channels.lookup name with
  | none => exact .refl _
  | some channel =>
    exact .erase (Table.map_lookup_erase s.channels name _) (fun _ => rfl)
      (Exchange.Move.close s.exchange channel.ring).length_le

theorem keeps_clear : Ledger.Keeps s.ledger s.clear.ledger := by
  obtain ⟨hhandles, -⟩ := Exchange.closeAll_same
    (fun c : (_ : String) × BroadcastInner => c.2.ring) s.channels.entries s.exchange
  have hmoves := Exchange.moves_closeAll
    (fun c : (_ : String) × BroadcastInner => c.2.ring) s.channels.entries s.exchange
  refine ⟨fun _ => .inr rfl, fun ring => ?_, hmoves.length_le⟩
  change (List.countP _ (List.foldl _ _ _ : Exchange String String).handles) = _
  rw [hhandles]
  rfl

theorem keeps_callOn {α : Type*} {i : Nat} {f : RingBuffer String → Handle String String → α × Handle String String}
    {a : α} {e : Exchange String String} (h : s.exchange.callOn i f = some (a, e))
    (hf : ∀ r x, (f r x).2.ring = x.ring ∧ (f r x).2.live = x.live) :
    Ledger.Keeps s.ledger (ledger { s with exchange := e }) := by
  obtain ⟨x, r, hx, -, -, -, rfl⟩ := Exchange.callOn_eq_some h
  obtain ⟨hring, hlive⟩ := hf r x
  refine ⟨fun _ => .inl rfl, fun ring => ?_, Nat.le_refl _⟩
  have hset := Exchange.tally_set (fun h : Handle String String => if h.live then 1 else 0) ring hx _ hring
  rw [hlive, ← Exchange.receivers_eq_tally, ← Exchange.receivers_eq_tally] at hset
  exact Nat.add_right_cancel hset

theorem change_create (name : String) (config : Option BroadcastConfig) {good : Prop} (hgood : good) :
    Ledger.Change s.ledger (s.create name config).2.ledger good := by
  unfold create
  split_ifs
  · exact .keep (.refl _) hgood
  · dsimp only
    cases ringCapacity (config.getD {}).bufferSize with
    | error e => exact .keep (.refl _) hgood
    | ok capacity =>
      exact .opens name (ledger_insert ..) rfl (List.length_append ..) hgood

theorem change_subscribe (name : String) {good : Prop} (hgood : good) :
    Ledger.Change s.ledger (s.subscribe name).2.ledger good := by
  unfold subscribe
  cases hlookup : s.channels.lookup name with
  | none => exact .keep (.refl _) hgood
  | some channel =>
    refine .book name channel.ring channel.subscriberCount 1 (congrArg (Option.map _) hlookup)
      (ledger_insert ..) ?_ rfl hgood
    funext ring
    change Exchange.receivers _ _ = _
    rw [Exchange.receivers_eq_tally, Exchange.tally_subscribe, ← Exchange.receivers_eq_tally]
    by_cases h : ring = channel.ring
    · rw [h, if_pos rfl, Function.update_self]
      rfl
    · rw [if_neg (Ne.symm h), Function.update_of_ne h]
      rfl

theorem change_drop (hs : s.InOrder) (i : Nat) :
    Ledger.Change s.ledger (ledger { s with exchange := s.exchange.drop i })
      (¬ s.DropsListener (.drop i)) := by
  cases hi : s.exchange.handles[i]? with
  | none =>
    rw [Exchange.drop_none hi]
    refine .keep (.refl _) ?_
    rintro ⟨j, h, -, -, hcall, hj, -⟩
    cases hcall
    exact nomatch hi.symm.trans hj
  | some h =>
    rw [Exchange.drop_eq hi]
    -- a handle that was dropped before is not counted any more
    have hsame : Exchange.receivers { s.exchange with
        handles := s.exchange.handles.set i { h with live := false } } h.ring =
        s.exchange.receivers h.ring ↔ h.live = false := by
      rw [Exchange.receivers_eq_tally, Exchange.receivers_eq_tally,
        Exchange.tally_set_self_iff _ hi { h with live := false } rfl]
      cases h.live <;> simp
    refine .drift h.ring (hs.kept.ring_lt (List.mem_of_getElem? hi)) rfl (fun ring hring => ?_) rfl ?_
    · change Exchange.receivers _ _ = Exchange.receivers _ _
      rw [Exchange.receivers_eq_tally, Exchange.receivers_eq_tally]
      exact Exchange.tally_set_of_ne _ hi _ rfl hring
    · constructor
      · intro hgood name balance hentry
        obtain ⟨channel, hlookup, heq⟩ := Option.map_eq_some_iff.mp hentry
        refine hsame.mpr (Bool.eq_false_iff.mpr fun hlive => ?_)
        exact hgood ⟨i, h, name, channel, rfl, hi, hlive, hlookup, congrArg Prod.fst heq⟩
      · rintro htotal ⟨j, h', name, channel, hcall, hj, hlive, hlookup, hring⟩
        cases hcall
        obtain rfl := Option.some.inj (hi.symm.trans hj)
        have hentry : s.ledger.entries name = some (h.ring, channel.subscriberCount) := by
          rw [← hring]
          exact congrArg (Option.map _) hlookup
        exact Bool.false_ne_true ((hsame.mp (htotal name _ hentry)).symm.trans hlive)

/-- Only dropping a handle can bring the counters of subscribers out of step. -/
theorem change_step (hs : s.InOrder) {call : BroadcastCall} (hstep : s.step call = some t) :
    Ledger.Change s.ledger t.ledger (¬ s.DropsListener call) := by
  cases call with
  | create name config =>
    cases hstep
    exact change_create name config nofun
  | remove name =>
    cases hstep
    exact .keep (keeps_remove name) nofun
  | subscribe name =>
    cases hstep
    exact change_subscribe name nofun
  | send name message messageId =>
    cases hstep
    exact .keep (keeps_send name message messageId) nofun
  | sendMany names message =>
    cases hstep
    exact .keep (keeps_sendMany names message (∅, s)) nofun
  | clear =>
    cases hstep
    exact .keep keeps_clear nofun
  | tryRecv i =>
    obtain ⟨⟨a, e⟩, hcall, rfl⟩ := Option.map_eq_some_iff.mp hstep
    refine .keep (keeps_callOn hcall fun r x => ⟨Exchange.ring_tryRecv r x, ?_⟩) nofun
    unfold Handle.tryRecv
    split <;> rfl
  | drain i =>
    obtain ⟨⟨a, e⟩, hcall, rfl⟩ := Option.map_eq_some_iff.mp hstep
    exact .keep (keeps_callOn hcall fun r x => ⟨rfl, rfl⟩) nofun
  | drop i =>
    cases hstep
    exact change_drop hs i

end RealtimeBroadcast

/-! ## Channels -/

namespace Handle

variable {K M : Type*} {r : RingBuffer M} {h : Handle K M}

theorem missed_tryRecv :
    (h.tryRecv r).2.reader.missed = h.reader.missed + r.overwritten h.reader.next := by
  rcases Nat.lt_or_ge h.reader.next r.log.length with hlt | hge
  · rw [tryRecv_of_lt hlt]
    change h.reader.missed + (r.oldest h.reader.next - h.reader.next) = _
    unfold RingBuffer.oldest RingBuffer.overwritten
    omega
  · rw [tryRecv_of_le hge]
    change h.reader.missed = _
    unfold RingBuffer.overwritten
    omega

theorem missed_drain (ha : Accounted r h) :
    (h.drain r).2.reader.missed = h.reader.missed + r.overwritten h.reader.next := by
  rw [drain_eq ha.next_le]
  change h.reader.missed + (r.oldest h.reader.next - h.reader.next) = _
  unfold RingBuffer.oldest RingBuffer.overwritten
  omega

end Handle

namespace ChannelManager

variable {s t : ChannelManager} {name : String} {channel : ChannelInner}

/-- The counters of dropped messages, beside what the handles have reported. -/
def ledger (s : ChannelManager) : Ledger String where
  entries name := (s.channels.lookup name).map fun channel => (channel.ring, channel.droppedMessages)
  total := s.exchange.missed
  opened := s.exchange.rings.length

theorem ledger_insert (name : String) (channel' : ChannelInner) (m : TopicMatcher)
    (e : Exchange SubscriberLabel String) :
    (ledger ⟨s.channels.insert name channel', s.defaultBufferSize, m, e⟩).entries =
      Function.update s.ledger.entries name (some (channel'.ring, channel'.droppedMessages)) :=
  Table.map_lookup_insert s.channels name channel' fun channel =>
    (channel.ring, channel.droppedMessages)

theorem keeps_update (h : s.channels.lookup name = some channel) (channel' : ChannelInner)
    (hring : channel'.ring = channel.ring) (hdropped : channel'.droppedMessages = channel.droppedMessages)
    (m : TopicMatcher) {e : Exchange SubscriberLabel String}
    (he : ∀ ring, e.missed ring = s.exchange.missed ring)
    (hopened : s.exchange.rings.length ≤ e.rings.length) :
    Ledger.Keeps s.ledger (ledger ⟨s.channels.insert name channel', s.defaultBufferSize, m, e⟩) := by
  have hentry : s.ledger.entries name = some (channel'.ring, channel'.droppedMessages) := by
    rw [hring, hdropped]
    exact congrArg (Option.map _) h
  exact .rewrite hentry (ledger_insert ..) he hopened

theorem keeps_sends (h : Sends s t) : Ledger.Keeps s.ledger t.ledger := by
  refine h.invariant (P := fun u => Ledger.Keeps s.ledger u.ledger) ?_ (.refl _)
  rintro u v hu ⟨name, channel, message, hlookup, rfl⟩
  refine hu.trans (keeps_update hlookup { channel with totalMessages := channel.totalMessages + 1 }
    rfl rfl _ (fun ring => ?_) (Exchange.Move.send u.exchange channel.ring message).length_le)
  refine Exchange.tally_send _ _ _ (fun other msg h => ?_) _ _
  unfold Handle.published
  split_ifs <;> rfl

theorem keeps_remove (name : String) : Ledger.Keeps s.ledger (s.removeChannel name).2.ledger := by
  unfold removeChannel
  cases s.channels.lookup name with
  | none => exact .refl _
  | some channel =>
    exact .erase (Table.map_lookup_erase s.channels name _) (fun _ => rfl)
      (Exchange.Move.close s.exchange channel.ring).length_le

theorem keeps_subscribe (name client : String) :
    Ledger.Keeps s.ledger (s.subscribe name client).2.ledger := by
  unfold subscribe
  cases hlookup : s.channels.lookup name with
  | none => exact .refl _
  | some channel =>
    refine keeps_update hlookup { channel with subscribers := insert client channel.subscribers }
      rfl rfl _ (fun ring => ?_) (Nat.le_refl _)
    refine (Exchange.tally_subscribe ..).trans ?_
    split_ifs <;> rfl

theorem keeps_unsubscribe (name client : String) :
    Ledger.Keeps s.ledger (s.unsubscribe name client).2.ledger := by
  unfold unsubscribe
  dsimp only
  cases hlookup : s.channels.lookup name with
  | none => exact .refl _
  | some channel => exact keeps_update hlookup { channel with
      subscribers := channel.subscribers.erase client } rfl rfl _ (fun _ => rfl) (Nat.le_refl _)

theorem keeps_clear : Ledger.Keeps s.ledger s.clear.ledger := by
  obtain ⟨hhandles, -⟩ := Exchange.closeAll_same
    (fun c : (_ : String) × ChannelInner => c.2.ring) s.channels.entries s.exchange
  have hmoves := Exchange.moves_closeAll
    (fun c : (_ : String) × ChannelInner => c.2.ring) s.channels.entries s.exchange
  refine ⟨fun _ => .inr rfl, fun ring => ?_, hmoves.length_le⟩
  change (List.map _ (List.foldl _ _ _ : Exchange SubscriberLabel String).handles).sum = _
  rw [hhandles]
  rfl

theorem keeps_drop (i : Nat) :
    Ledger.Keeps s.ledger (ledger { s with exchange := s.exchange.drop i }) := by
  cases hi : s.exchange.handles[i]? with
  | none =>
    rw [Exchange.drop_none hi]
    exact .refl _
  | some h =>
    rw [Exchange.drop_eq hi]
    refine ⟨fun _ => .inl rfl, fun ring => ?_, Nat.le_refl _⟩
    exact Nat.add_right_cancel (Exchange.tally_set _ ring hi { h with live := false } rfl)

theorem change_create (name : String) (bufferSize : Option Nat) (metadata : Option Metadata)
    {good : Prop} (hgood : good) :
    Ledger.Change s.ledger (s.createChannel name bufferSize metadata).2.ledger good := by
  unfold createChannel
  split_ifs
  · exact .keep (.refl _) hgood
  · cases ringCapacity (bufferSize.getD s.defaultBufferSize) with
    | error e => exact .keep (.refl _) hgood
    | ok capacity => exact .opens name (ledger_insert ..) rfl (List.length_append ..) hgood

/-- Reading a handle tells it what it has missed since, but not the channel. -/
theorem change_read (hs : s.InOrder) {call : ChannelCall} {α : Type*} {i : Nat}
    {f : RingBuffer String → Handle SubscriberLabel String → α × Handle SubscriberLabel String}
    {a : α} {e : Exchange SubscriberLabel String}
    (hcall : ∀ j, call = .tryRecv j ∨ call = .drain j ↔ i = j)
    (h : s.exchange.callOn i f = some (a, e))
    (hf : ∀ r x, Accounted r x → (f r x).2.ring = x.ring ∧
      (f r x).2.reader.missed = x.reader.missed + r.overwritten x.reader.next) :
    Ledger.Change s.ledger (ledger { s with exchange := e }) (¬ s.LearnsOfLag call) := by
  obtain ⟨x, r, hx, hr, hlive, -, rfl⟩ := Exchange.callOn_eq_some h
  have hmem := List.mem_of_getElem? hx
  obtain ⟨r', hr', ha⟩ := hs.kept x hmem
  obtain rfl := Option.some.inj (hr.symm.trans hr')
  obtain ⟨hring, hmissed⟩ := hf r x ha
  -- the handle's own count rises by what the ring has overwritten since it was read
  have hsame := Exchange.tally_set_self_iff
    (fun h : Handle SubscriberLabel String => h.reader.missed) hx _ hring
  rw [hmissed, Nat.add_eq_left] at hsame
  refine .drift x.ring (hs.kept.ring_lt hmem) rfl
    (fun ring hne => Exchange.tally_set_of_ne _ hx _ hring hne) rfl ?_
  constructor
  · intro hgood name balance hentry
    obtain ⟨channel, hlookup, heq⟩ := Option.map_eq_some_iff.mp hentry
    refine hsame.mpr (by_contra fun hlag => ?_)
    exact hgood ⟨i, x, r, name, channel, (hcall i).mpr rfl, hx, hlive, hr, hlookup,
      congrArg Prod.fst heq, hlag⟩
  · rintro htotal ⟨j, x', r', name, channel, hj, hx', -, hr', hlookup, hchannel, hlag⟩
    obtain rfl := (hcall j).mp hj
    obtain rfl := Option.some.inj (hx.symm.trans hx')
    obtain rfl := Option.some.inj (hr.symm.trans hr')
    have hentry : s.ledger.entries name = some (x.ring, channel.droppedMessages) := by
      rw [← hchannel]
      exact congrArg (Option.map _) hlookup
    exact hlag (hsame.mp (htotal name _ hentry))

/-- Only reading a handle can bring the counters of dropped messages out of step. -/
theorem change_step (hs : s.InOrder) {call : ChannelCall} (hstep : s.step call = some t) :
    Ledger.Change s.ledger t.ledger (¬ s.LearnsOfLag call) := by
  cases call with
  | createChannel name bufferSize metadata =>
    cases hstep
    exact change_create name bufferSize metadata nofun
  | removeChannel name =>
    cases hstep
    exact .keep (keeps_remove name) nofun
  | subscribe name client =>
    cases hstep
    exact .keep (keeps_subscribe name client) nofun
  | unsubscribe name client =>
    cases hstep
    exact .keep (keeps_unsubscribe name client) nofun
  | publish name message =>
    cases hstep
    exact .keep (keeps_sends (s.publish_sends name message)) nofun
  | publishToTopic topic message order =>
    obtain rfl := step_publishToTopic hstep
    exact .keep (keeps_sends (s.publishToTopic_sends topic message order)) nofun
  | clear =>
    cases hstep
    exact .keep keeps_clear nofun
  | tryRecv i =>
    obtain ⟨⟨a, e⟩, hcall, rfl⟩ := Option.map_eq_some_iff.mp hstep
    refine change_read hs (fun j => ?_) hcall
      fun r x _ => ⟨Exchange.ring_tryRecv r x, Handle.missed_tryRecv⟩
    simp
  | drain i =>
    obtain ⟨⟨a, e⟩, hcall, rfl⟩ := Option.map_eq_some_iff.mp hstep
    refine change_read hs (fun j => ?_) hcall fun r x ha => ⟨rfl, Handle.missed_drain ha⟩
    simp
  | drop i =>
    cases hstep
    exact .keep (keeps_drop i) nofun

end ChannelManager

/-! ## Whole runs -/

namespace RealtimeBroadcast

variable {s t : RealtimeBroadcast}

theorem truthful_iff : s.Truthful ↔ s.ledger.Exact := by
  have hlive : ∀ {name : String} {channel : BroadcastInner}, s.channels.lookup name = some channel →
      s.liveHandles name = s.exchange.receivers channel.ring := by
    intro name channel h
    unfold liveHandles
    rw [h]
  constructor
  · intro h name ring count hentry
    obtain ⟨channel, hlookup, heq⟩ := Option.map_eq_some_iff.mp hentry
    obtain ⟨rfl, rfl⟩ := Prod.mk.inj heq
    have hstats : s.stats name = .ok channel.stats := by
      unfold stats
      rw [hlookup]
    exact (h.active name _ hstats).trans (hlive hlookup)
  · refine fun h => ⟨fun name stats hstats => ?_, s.globalStats_eq⟩
    unfold RealtimeBroadcast.stats at hstats
    cases hlookup : s.channels.lookup name with
    | none =>
      rw [hlookup] at hstats
      cases hstats
    | some channel =>
      rw [hlookup] at hstats
      cases hstats
      exact (h name _ _ (congrArg (Option.map _) hlookup)).trans (hlive hlookup).symm

theorem InOrder.step (h : s.InOrder) {call : BroadcastCall} (hstep : s.step call = some t) :
    t.InOrder := by
  obtain ⟨hmoves, hwired⟩ := step_moves h.wired hstep
  exact ⟨h.kept.moves hmoves, hwired⟩

theorem always_truthful_iff (calls : List BroadcastCall) :
    Always step Truthful new calls ↔ Along step (fun s call => ¬ s.DropsListener call) new calls := by
  have hrule := Ledger.always_exact_iff new calls ledger InOrder
    (fun s call => ¬ s.DropsListener call) (fun s call t h hstep => h.step hstep)
    (fun s call t h hstep => change_step h hstep) ⟨nofun, nofun⟩ ⟨nofun, fun _ _ => rfl, nofun⟩ nofun
  have henabled : ∀ (s : RealtimeBroadcast) call, ¬ ¬ s.DropsListener call →
      ∃ t, s.step call = some t := by
    intro s call h
    obtain ⟨i, -, -, -, rfl, -⟩ := not_not.mp h
    exact ⟨_, rfl⟩
  have hsame : Truthful = fun s => s.ledger.Exact := funext fun _ => propext truthful_iff
  rw [hsame, ← along_enabled_iff henabled]
  exact hrule

end RealtimeBroadcast

namespace ChannelManager

variable {s t : ChannelManager}

theorem truthful_iff : s.Truthful ↔ s.ledger.Exact := by
  have hmissed : ∀ {name : String} {channel : ChannelInner}, s.channels.lookup name = some channel →
      s.missedOn name = s.exchange.missed channel.ring := by
    intro name channel h
    unfold missedOn
    rw [h]
  constructor
  · intro h name ring count hentry
    obtain ⟨channel, hlookup, heq⟩ := Option.map_eq_some_iff.mp hentry
    obtain ⟨rfl, rfl⟩ := Prod.mk.inj heq
    have hstats : s.getStats name = .ok ⟨name, channel.subscribers.card, channel.totalMessages,
        channel.droppedMessages, channel.metadata⟩ := by
      unfold getStats
      rw [hlookup]
    exact (h name _ hstats).trans (hmissed hlookup)
  · intro h name stats hstats
    unfold getStats at hstats
    cases hlookup : s.channels.lookup name with
    | none =>
      rw [hlookup] at hstats
      cases hstats
    | some channel =>
      rw [hlookup] at hstats
      cases hstats
      exact (h name _ _ (congrArg (Option.map _) hlookup)).trans (hmissed hlookup).symm

theorem InOrder.step (h : s.InOrder) {call : ChannelCall} (hstep : s.step call = some t) :
    t.InOrder := by
  obtain ⟨hmoves, hwired⟩ := step_moves h.wired hstep
  exact ⟨h.kept.moves hmoves, hwired⟩

theorem always_truthful_iff (defaultBufferSize : Nat) (calls : List ChannelCall) :
    Always step Truthful (new defaultBufferSize) calls ↔
      Along step (fun s call => ¬ s.LearnsOfLag call) (new defaultBufferSize) calls := by
  have hrule := Ledger.always_exact_iff (new defaultBufferSize) calls ledger InOrder
    (fun s call => ¬ s.LearnsOfLag call) (fun s call t h hstep => h.step hstep)
    (fun s call t h hstep => change_step h hstep) ⟨nofun, nofun⟩ ⟨nofun, fun _ _ => rfl, nofun⟩ nofun
  have henabled : ∀ (s : ChannelManager) call, ¬ ¬ s.LearnsOfLag call → ∃ t, s.step call = some t := by
    intro s call h
    obtain ⟨i, x, r, -, -, rfl | rfl, hx, hlive, hr, -⟩ := not_not.mp h
    · exact ⟨_, Option.map_eq_some_iff.mpr ⟨_, Exchange.callOn_of_live hx hr hlive _, rfl⟩⟩
    · exact ⟨_, Option.map_eq_some_iff.mpr ⟨_, Exchange.callOn_of_live hx hr hlive _, rfl⟩⟩
  have hsame : Truthful = fun s => s.ledger.Exact := funext fun _ => propext truthful_iff
  rw [hsame, ← along_enabled_iff henabled]
  exact hrule

end ChannelManager

/-- The statistics are right all along a run exactly if no listener is dropped and no lag is learnt
of: neither counter is ever told. -/
theorem stats_truthful_iff (broadcasts : List BroadcastCall) (defaultBufferSize : Nat)
    (calls : List ChannelCall) :
    (Always RealtimeBroadcast.step RealtimeBroadcast.Truthful .new broadcasts ↔
      Along RealtimeBroadcast.step (fun s call => ¬ s.DropsListener call) .new broadcasts) ∧
    (Always ChannelManager.step ChannelManager.Truthful (.new defaultBufferSize) calls ↔
      Along ChannelManager.step (fun s call => ¬ s.LearnsOfLag call) (.new defaultBufferSize)
        calls) :=
  ⟨RealtimeBroadcast.always_truthful_iff broadcasts,
    ChannelManager.always_truthful_iff defaultBufferSize calls⟩

def droppedHandle : List BroadcastCall := [.create "news" none, .subscribe "news", .drop 0]

def lateReader : List ChannelCall :=
  [.createChannel "chat" (some 1) none, .subscribe "chat" "alice", .publish "chat" "hello",
    .publish "chat" "again", .tryRecv 0]

theorem stats_not_truthful :
    ¬ (∀ calls, Always RealtimeBroadcast.step RealtimeBroadcast.Truthful .new calls) ∧
      ¬ ∀ defaultBufferSize calls,
        Always ChannelManager.step ChannelManager.Truthful (.new defaultBufferSize) calls := by
  constructor
  · intro h
    have hfinal := (h droppedHandle).final rfl
    have hactive : 1 = 0 := hfinal.active "news" _ rfl
    cases hactive
  · intro h
    have hrun : (exec ChannelManager.step (.new 256) lateReader).map (fun s =>
        ((s.getStats "chat").toOption.map ChannelStats.droppedMessages, s.missedOn "chat")) =
          some (some 0, 1) := by decide +kernel
    obtain ⟨s, hexec, hs⟩ := Option.map_eq_some_iff.mp hrun
    obtain ⟨hstats, hmissed⟩ := Prod.mk.inj hs
    have hfinal := (h 256 lateReader).final hexec "chat"
    cases hget : s.getStats "chat" with
    | error e =>
      rw [hget] at hstats
      cases hstats
    | ok stats =>
      rw [hget] at hstats
      have hdropped : stats.droppedMessages = 0 := Option.some.inj hstats
      have htruth := hfinal stats hget
      rw [hdropped, hmissed] at htruth
      cases htruth

end Hypern.Realtime
