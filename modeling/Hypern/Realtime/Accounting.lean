import Hypern.Realtime.Broadcast

/-! The books of every handle that either manager has given out, over whole runs. -/

namespace Hypern.Realtime

open Lib

namespace Exchange

variable {K M : Type*} {e e' : Exchange K M}

theorem Move.length_le (h : Move e e') : e.rings.length ≤ e'.rings.length := by
  cases h with
  | channel capacity hpos =>
    exact (List.length_append ..).symm ▸ Nat.le_add_right ..
  | subscribe | drop => exact Nat.le_refl _
  | send ring msg =>
    unfold Exchange.send
    dsimp only
    split_ifs
    · exact Nat.le_refl _
    · rw [List.length_modify]
  | tryRecv hcall =>
    obtain ⟨-, -, -, -, -, -, rfl⟩ := callOn_eq_some hcall
    exact Nat.le_refl _
  | drain hcall =>
    obtain ⟨-, -, -, -, -, -, rfl⟩ := callOn_eq_some hcall
    exact Nat.le_refl _
  | close ring => exact Nat.le_of_eq (List.length_modify ..).symm

theorem Moves.length_le (h : Moves e e') : e.rings.length ≤ e'.rings.length := by
  induction h with
  | refl => exact Nat.le_refl _
  | tail _ hmove ih => exact Nat.le_trans ih hmove.length_le

theorem moves_closeAll {α : Type*} (ring : α → Nat) (l : List α) (e : Exchange K M) :
    Moves e (l.foldl (fun e a => e.close (ring a)) e) := by
  induction l generalizing e with
  | nil => exact .refl
  | cons a l ih => exact .head (.close e (ring a)) (ih _)

end Exchange

/-! ## Channels that exist -/

/-- The channels of a manager stand for channels of the exchange. -/
def Wired {K M V : Type*} (ring : V → Nat) (t : Table String V) (e : Exchange K M) : Prop :=
  ∀ name v, t.lookup name = some v → ring v < e.rings.length

namespace Wired

variable {K M V : Type*} {ring : V → Nat} {t : Table String V} {e e' : Exchange K M}

theorem moves (h : Wired ring t e) (hmoves : Exchange.Moves e e') : Wired ring t e' :=
  fun name v hv => Nat.lt_of_lt_of_le (h name v hv) hmoves.length_le

theorem insert (h : Wired ring t e) (name : String) {v : V} (hv : ring v < e.rings.length) :
    Wired ring (t.insert name v) e := by
  intro other w hw
  rw [Table.lookup_insert_eq] at hw
  split_ifs at hw
  · rwa [← Option.some.inj hw]
  · exact h other w hw

theorem erase (h : Wired ring t e) (name : String) : Wired ring (t.erase name) e := by
  intro other w hw
  rw [Table.lookup_erase_eq] at hw
  split_ifs at hw
  exact h other w hw

theorem empty : Wired ring (∅ : Table String V) e := nofun

/-! What the calls of either manager do to the exchange and to the table of channels. -/

theorem move (h : Wired ring t e) (hmove : Exchange.Move e e') :
    Exchange.Moves e e' ∧ Wired ring t e' :=
  ⟨.single hmove, h.moves (.single hmove)⟩

theorem channel (h : Wired ring t e) (name : String) {v : V} (hv : ring v = e.rings.length)
    (capacity : Nat) (hpos : 0 < capacity) :
    Exchange.Moves e (e.channel capacity hpos) ∧
      Wired ring (t.insert name v) (e.channel capacity hpos) := by
  obtain ⟨hmoves, hwired⟩ := h.move (.channel e capacity hpos)
  refine ⟨hmoves, hwired.insert name ?_⟩
  rw [hv, Exchange.channel, List.length_append]
  exact Nat.lt_succ_self _

theorem closeErase (h : Wired ring t e) (name : String) (i : Nat) :
    Exchange.Moves e (e.close i) ∧ Wired ring (t.erase name) (e.close i) := by
  obtain ⟨hmoves, hwired⟩ := h.move (.close e i)
  exact ⟨hmoves, hwired.erase name⟩

theorem subscribe (h : Wired ring t e) (name : String) {v : V} (hv : ring v < e.rings.length) (label : K) :
    Exchange.Moves e (e.subscribe (ring v) label) ∧
      Wired ring (t.insert name v) (e.subscribe (ring v) label) :=
  (h.insert name hv).move (.subscribe e (ring v) label hv)

theorem send (h : Wired ring t e) (name : String) {v : V} (hv : ring v < e.rings.length) (msg : M) :
    Exchange.Moves e (e.send (ring v) msg).2 ∧
      Wired ring (t.insert name v) (e.send (ring v) msg).2 :=
  (h.insert name hv).move (.send e (ring v) msg)

end Wired

namespace ChannelManager

variable {s t : ChannelManager}

abbrev IsWired (s : ChannelManager) : Prop := Wired ChannelInner.ring s.channels s.exchange

theorem SendStep.moves (h : SendStep s t) (hs : s.IsWired) :
    Exchange.Moves s.exchange t.exchange ∧ t.IsWired := by
  obtain ⟨name, inner, message, hlookup, rfl⟩ := h
  exact hs.send name (v := { inner with totalMessages := inner.totalMessages + 1 })
    (hs name inner hlookup) message

theorem Sends.moves (h : Sends s t) (hs : s.IsWired) :
    Exchange.Moves s.exchange t.exchange ∧ t.IsWired := by
  refine h.invariant (P := fun u => Exchange.Moves s.exchange u.exchange ∧ u.IsWired) ?_ ⟨.refl, hs⟩
  intro u v hu hsend
  obtain ⟨hmoves, hwired⟩ := hsend.moves hu.2
  exact ⟨hu.1.trans hmoves, hwired⟩

/-- Every call moves the exchange. -/
theorem step_moves (hs : s.IsWired) {call : ChannelCall} (hstep : s.step call = some t) :
    Exchange.Moves s.exchange t.exchange ∧ t.IsWired := by
  cases call with
  | createChannel name bufferSize metadata =>
    cases hstep
    unfold createChannel
    split_ifs with hmem
    · exact ⟨.refl, hs⟩
    · cases ringCapacity (bufferSize.getD s.defaultBufferSize) with
      | error e => exact ⟨.refl, hs⟩
      | ok capacity => exact hs.channel name rfl capacity.1 capacity.2
  | removeChannel name =>
    cases hstep
    unfold removeChannel
    cases s.channels.lookup name with
    | none => exact ⟨.refl, hs⟩
    | some inner => exact hs.closeErase name inner.ring
  | subscribe name client =>
    cases hstep
    unfold subscribe
    cases hlookup : s.channels.lookup name with
    | none => exact ⟨.refl, hs⟩
    | some inner =>
      have hring : ChannelInner.ring { inner with
          subscribers := insert client inner.subscribers } < _ := hs name inner hlookup
      exact hs.subscribe name hring (name, client)
  | unsubscribe name client =>
    cases hstep
    unfold unsubscribe
    dsimp only
    cases hlookup : s.channels.lookup name with
    | none => exact ⟨.refl, hs⟩
    | some inner => exact ⟨.refl, hs.insert name (hs name inner hlookup)⟩
  | publish name message =>
    cases hstep
    exact (s.publish_sends name message).moves hs
  | publishToTopic topic message order =>
    obtain rfl := step_publishToTopic hstep
    exact (s.publishToTopic_sends topic message order).moves hs
  | clear =>
    cases hstep
    exact ⟨Exchange.moves_closeAll (fun c : (_ : String) × ChannelInner => c.2.ring) _ _, .empty⟩
  | tryRecv i =>
    obtain ⟨⟨r, e⟩, hcall, rfl⟩ := Option.map_eq_some_iff.mp hstep
    exact hs.move (.tryRecv hcall)
  | drain i =>
    obtain ⟨⟨r, e⟩, hcall, rfl⟩ := Option.map_eq_some_iff.mp hstep
    exact hs.move (.drain hcall)
  | drop i =>
    cases hstep
    exact ⟨.single (.drop ..), hs⟩

end ChannelManager

namespace RealtimeBroadcast

variable {s t : RealtimeBroadcast}

abbrev IsWired (s : RealtimeBroadcast) : Prop := Wired BroadcastInner.ring s.channels s.exchange

theorem ring_dedup {inner inner' : BroadcastInner} {messageId : Option String}
    (h : inner.dedup messageId = some inner') : inner'.ring = inner.ring := by
  obtain ⟨ids, rfl⟩ := BroadcastInner.dedup_eq_some h
  rfl

theorem sendOne_moves (message name : String) {acc : Table String Nat × RealtimeBroadcast}
    (hs : acc.2.IsWired) :
    Exchange.Moves acc.2.exchange (sendOne message acc name).2.exchange ∧
      (sendOne message acc name).2.IsWired := by
  unfold sendOne
  cases hlookup : acc.2.channels.lookup name with
  | none => exact ⟨.refl, hs⟩
  | some inner =>
    have hring : BroadcastInner.ring { inner with totalSent := inner.totalSent + 1 } < _ :=
      hs name inner hlookup
    exact hs.send name hring message

theorem sendMany_moves (names : List String) (message : String)
    (acc : Table String Nat × RealtimeBroadcast) (hs : acc.2.IsWired) :
    Exchange.Moves acc.2.exchange (names.foldl (sendOne message) acc).2.exchange ∧
      (names.foldl (sendOne message) acc).2.IsWired := by
  induction names generalizing acc with
  | nil => exact ⟨.refl, hs⟩
  | cons name names ih =>
    obtain ⟨hmoves, hwired⟩ := sendOne_moves message name hs
    obtain ⟨hrest, hlast⟩ := ih _ hwired
    exact ⟨hmoves.trans hrest, hlast⟩

/-- Every call moves the exchange. -/
theorem step_moves (hs : s.IsWired) {call : BroadcastCall} (hstep : s.step call = some t) :
    Exchange.Moves s.exchange t.exchange ∧ t.IsWired := by
  cases call with
  | create name config =>
    cases hstep
    unfold create
    split_ifs with hmem
    · exact ⟨.refl, hs⟩
    · dsimp only
      cases ringCapacity (config.getD {}).bufferSize with
      | error e => exact ⟨.refl, hs⟩
      | ok capacity => exact hs.channel name rfl capacity.1 capacity.2
  | remove name =>
    cases hstep
    unfold remove
    cases s.channels.lookup name with
    | none => exact ⟨.refl, hs⟩
    | some inner => exact hs.closeErase name inner.ring
  | subscribe name =>
    cases hstep
    unfold subscribe
    cases hlookup : s.channels.lookup name with
    | none => exact ⟨.refl, hs⟩
    | some inner =>
      have hring : BroadcastInner.ring { inner with
          subscriberCount := inner.subscriberCount + 1 } < _ := hs name inner hlookup
      exact hs.subscribe name hring name
  | send name message messageId =>
    cases hstep
    unfold send
    cases hlookup : s.channels.lookup name with
    | none => exact ⟨.refl, hs⟩
    | some inner =>
      have hring := hs name inner hlookup
      dsimp only
      cases hdedup : inner.dedup messageId with
      | none => exact ⟨.refl, hs.insert name hring⟩
      | some inner' =>
        rw [← ring_dedup hdedup] at hring
        have hsent : BroadcastInner.ring { inner' with totalSent := inner'.totalSent + 1 } < _ := hring
        have hdropped : BroadcastInner.ring { inner' with
            totalSent := inner'.totalSent + 1, totalDropped := inner'.totalDropped + 1 } < _ := hring
        dsimp only
        split_ifs
        · exact hs.send name hsent message
        · cases inner'.config.policy with
          | dropOldest => exact hs.send name hdropped message
          | error => exact hs.send name hsent message
  | sendMany names message =>
    cases hstep
    exact sendMany_moves names message (∅, s) hs
  | clear =>
    cases hstep
    exact ⟨Exchange.moves_closeAll (fun c : (_ : String) × BroadcastInner => c.2.ring) _ _, .empty⟩
  | tryRecv i =>
    obtain ⟨⟨r, e⟩, hcall, rfl⟩ := Option.map_eq_some_iff.mp hstep
    exact hs.move (.tryRecv hcall)
  | drain i =>
    obtain ⟨⟨r, e⟩, hcall, rfl⟩ := Option.map_eq_some_iff.mp hstep
    exact hs.move (.drain hcall)
  | drop i =>
    cases hstep
    exact ⟨.single (.drop ..), hs⟩

end RealtimeBroadcast

/-! ## What the books say -/

/-- What a client can rely on about handle `i` of the exchange. -/
structure Exchange.Accounts {K M : Type*} (e : Exchange K M) (i : Nat) (h : Handle K M) (r : RingBuffer M) :
    Prop where
  subsequence : h.returned.Sublist h.since
  conserved : h.reader.received + h.reader.missed + r.pending h.reader.next +
    r.overwritten h.reader.next = h.since.length
  received : h.returned.length = h.reader.received
  none_pending : ∀ e', e.callOn i Handle.tryRecv = some (none, e') → r.pending h.reader.next = 0
  drained : ∃ msgs h', e.callOn i Handle.drain =
      some (msgs, { e with handles := e.handles.set i h' }) ∧ r.pending h'.reader.next = 0

theorem Exchange.Kept.accounts {K M : Type*} {e : Exchange K M} (hkept : e.Kept) {i : Nat}
    {h : Handle K M} (hi : e.handles[i]? = some h) (hlive : h.live = true) :
    ∃ r, e.rings[h.ring]? = some r ∧ e.Accounts i h r := by
  obtain ⟨r, hr, ha⟩ := hkept h (List.mem_of_getElem? hi)
  refine ⟨r, hr, ?_, ?_, ha.length, fun e' hcall => ?_, ?_⟩
  · rw [ha.since hlive]
    exact ha.returned.trans ((List.take_sublist ..).drop _)
  · have hcount := ha.count
    have hnext := ha.next_le
    have hrest : r.pending h.reader.next + r.overwritten h.reader.next = _ :=
      RingBuffer.pending_add_overwritten
    rw [ha.since hlive, List.length_drop]
    omega
  · obtain ⟨x, r', hx, hr', -, hnone, -⟩ := callOn_eq_some hcall
    obtain rfl := Option.some.inj (hi.symm.trans hx)
    obtain rfl := Option.some.inj (hr.symm.trans hr')
    rw [RingBuffer.pending_eq_zero_iff]
    by_contra hlt
    rw [Handle.tryRecv_of_lt (Nat.not_le.mp hlt)] at hnone
    cases hnone
  · refine ⟨(h.drain r).1, (h.drain r).2, ?_, ?_⟩
    · unfold Exchange.callOn
      rw [hi]
      dsimp only
      rw [hr]
      exact if_pos hlive
    · rw [Handle.drain_eq ha.next_le]
      exact RingBuffer.pending_eq_zero_iff.mpr (Nat.le_refl _)

structure ChannelManager.InOrder (s : ChannelManager) : Prop where
  kept : s.exchange.Kept
  wired : s.IsWired

theorem ChannelManager.InOrder.of_reaches {defaultBufferSize : Nat} {s : ChannelManager}
    (h : Reaches step (new defaultBufferSize) s) : InOrder s := by
  refine h.invariant (fun u call t hu hstep => ?_) ⟨nofun, nofun⟩
  obtain ⟨hmoves, hwired⟩ := step_moves hu.wired hstep
  exact ⟨hu.kept.moves hmoves, hwired⟩

structure RealtimeBroadcast.InOrder (s : RealtimeBroadcast) : Prop where
  kept : s.exchange.Kept
  wired : s.IsWired

theorem RealtimeBroadcast.InOrder.of_reaches {s : RealtimeBroadcast} (h : Reaches step new s) :
    InOrder s := by
  refine h.invariant (fun u call t hu hstep => ?_) ⟨nofun, nofun⟩
  obtain ⟨hmoves, hwired⟩ := step_moves hu.wired hstep
  exact ⟨hu.kept.moves hmoves, hwired⟩

/-- For every handle that a client still holds, in every state that a run of either manager
reaches. -/
theorem subscribers_account :
    (∀ (defaultBufferSize : Nat) (s : ChannelManager),
      Reaches ChannelManager.step (.new defaultBufferSize) s →
      ∀ (i : Nat) h, s.exchange.handles[i]? = some h → h.live = true →
        ∃ r, s.exchange.rings[h.ring]? = some r ∧ s.exchange.Accounts i h r) ∧
      ∀ s : RealtimeBroadcast, Reaches RealtimeBroadcast.step .new s →
        ∀ (i : Nat) h, s.exchange.handles[i]? = some h → h.live = true →
          ∃ r, s.exchange.rings[h.ring]? = some r ∧ s.exchange.Accounts i h r := by
  constructor
  · intro defaultBufferSize s hreaches i h hi hlive
    exact (ChannelManager.InOrder.of_reaches hreaches).kept.accounts hi hlive
  · intro s hreaches i h hi hlive
    exact (RealtimeBroadcast.InOrder.of_reaches hreaches).kept.accounts hi hlive

/-- A channel that keeps one message, with a subscriber and two messages published. -/
def overrun : ChannelManager :=
  (((((ChannelManager.new 256).createChannel "chat" (some 1) none).2.subscribe "chat" "alice").2.publish
    "chat" "hello").2.publish "chat" "again").2

theorem overrun_accounts :
    Reaches ChannelManager.step (.new 256) overrun ∧
      ∃ h r, overrun.exchange.handles[0]? = some h ∧ h.since = ["hello", "again"] ∧
        overrun.exchange.Accounts 0 h r := by
  have hreaches : Reaches ChannelManager.step (.new 256) overrun :=
    ⟨[.createChannel "chat" (some 1) none, .subscribe "chat" "alice", .publish "chat" "hello",
      .publish "chat" "again"], rfl⟩
  refine ⟨hreaches, ?_⟩
  obtain ⟨r, -, haccounts⟩ := subscribers_account.1 256 overrun hreaches 0 _ rfl rfl
  exact ⟨_, r, rfl, rfl, haccounts⟩

end Hypern.Realtime
