import Hypern.Realtime.Accounting

/-! Membership against delivery. `unsubscribe` takes the client out of the subscriber set, but the
handles that the client holds stay receivers of the channel; the two notions coincide as long as
nobody is unsubscribed who still holds a handle. -/

namespace Hypern.Realtime

open Lib

/-! ## What is published after an `unsubscribe` -/

/-- Whether the client of a handle has been unsubscribed since and not subscribed again, and the
positions of the messages published meanwhile. -/
structure Watch where
  stopped : Bool
  banned : List Nat

structure Delivery where
  manager : ChannelManager
  watch : Nat → Watch

namespace Delivery

def start (defaultBufferSize : Nat) : Delivery := ⟨.new defaultBufferSize, fun _ => ⟨false, []⟩⟩

/-- Whether the client of a handle with this label counts as unsubscribed after a call. -/
def stoppedAfter (s : ChannelManager) (label : SubscriberLabel) (stopped : Bool) : ChannelCall → Bool
  | .subscribe name client =>
    if label = (name, client) ∧ (s.subscribe name client).1.isOk then false else stopped
  | .unsubscribe name client =>
    if label = (name, client) ∧ (s.unsubscribe name client).1 = true then true else stopped
  | _ => stopped

def watchAfter (s t : ChannelManager) (call : ChannelCall) (w : Watch)
    (h : Handle SubscriberLabel String) : Watch where
  stopped := stoppedAfter s h.label w.stopped call
  banned :=
    if w.stopped then
      w.banned ++ List.range' (s.exchange.tail h.ring)
        (t.exchange.tail h.ring - s.exchange.tail h.ring)
    else w.banned

def step (d : Delivery) (call : ChannelCall) : Option Delivery :=
  (d.manager.step call).map fun t =>
    { manager := t
      watch := fun i =>
        match d.manager.exchange.handles[i]? with
        | some h => watchAfter d.manager t call (d.watch i) h
        | none => ⟨false, []⟩ }

/-- The live handles of a channel that belong to its subscribers. -/
def subscribedHandles (s : ChannelManager) (name : String) : Nat :=
  s.exchange.handles.countP fun h =>
    h.live && decide (s.ringOf name = some h.ring ∧ h.label.2 ∈ s.subscribers name)

/-- No handle has returned a message that was published while its client was unsubscribed, and
`publish` reaches as many receivers as there are handles of subscribers. -/
structure Delivers (d : Delivery) : Prop where
  stops : ∀ (i : Nat) h, d.manager.exchange.handles[i]? = some h →
    ∀ p ∈ h.got, p ∉ (d.watch i).banned
  counts : ∀ name message n, (d.manager.publish name message).1 = .ok n →
    n = subscribedHandles d.manager name

/-- Nobody is unsubscribed from a channel who holds a handle on it. -/
def LeavesWithout (d : Delivery) : ChannelCall → Prop
  | .unsubscribe name client => ∀ h ∈ d.manager.exchange.handles, h.live = true →
      d.manager.ringOf name = some h.ring → h.label.2 ≠ client
  | _ => True

end Delivery

/-! ## One call -/

namespace Exchange

variable {K M : Type*} {e : Exchange K M}

theorem tail_channel {ring : Nat} (h : ring < e.rings.length) (capacity : Nat) (hpos : 0 < capacity) :
    (e.channel capacity hpos).tail ring = e.tail ring := by
  unfold tail channel
  dsimp only
  rw [List.getElem?_append_left h]

theorem tail_close (other ring : Nat) : (e.close other).tail ring = e.tail ring := by
  unfold tail close
  dsimp only
  rw [List.getElem?_modify]
  cases e.rings[ring]? with
  | none => rfl
  | some r =>
    dsimp only [Option.map_eq_map, Option.map_some]
    split_ifs <;> rfl

theorem tail_send {other ring : Nat} (h : ring ≠ other) (msg : M) :
    (e.send other msg).2.tail ring = e.tail ring := by
  unfold tail send
  dsimp only
  split_ifs
  · rfl
  · rw [List.getElem?_modify]
    cases e.rings[ring]? with
    | none => rfl
    | some r =>
      dsimp only [Option.map_eq_map, Option.map_some]
      rw [if_neg (Ne.symm h)]

theorem closeAll_same {α : Type*} (ring : α → Nat) (l : List α) (e : Exchange K M) :
    (l.foldl (fun e a => e.close (ring a)) e).handles = e.handles ∧
      ∀ i, (l.foldl (fun e a => e.close (ring a)) e).tail i = e.tail i := by
  induction l generalizing e with
  | nil => exact ⟨rfl, fun _ => rfl⟩
  | cons a l ih =>
    obtain ⟨hhandles, htail⟩ := ih (e.close (ring a))
    exact ⟨hhandles, fun i => (htail i).trans (tail_close ..)⟩

end Exchange

/-- What a call leaves of a handle: it stays on its channel, for its client, and a handle that has
been dropped returns nothing any more. -/
structure Handle.Same {K M : Type*} (h h' : Handle K M) : Prop where
  label : h'.label = h.label
  ring : h'.ring = h.ring
  live : h'.live = true → h.live = true
  got : h.live = false → h'.got = h.got

namespace Handle.Same

variable {K M : Type*}

theorem refl (h : Handle K M) : Same h h := ⟨rfl, rfl, id, fun _ => rfl⟩

theorem trans {h h' h'' : Handle K M} (hs : Same h h') (hs' : Same h' h'') : Same h h'' := by
  refine ⟨hs'.label.trans hs.label, hs'.ring.trans hs.ring, hs.live ∘ hs'.live, fun hlive => ?_⟩
  have hlive' : h'.live = false := by
    rw [← Bool.not_eq_true] at hlive ⊢
    exact fun hl => hlive (hs.live hl)
  exact (hs'.got hlive').trans (hs.got hlive)

theorem published (ring : Nat) (msg : M) (h : Handle K M) : Same h (h.published ring msg) := by
  unfold Handle.published
  split_ifs
  · exact ⟨rfl, rfl, id, fun _ => rfl⟩
  · exact refl h

end Handle.Same

namespace ChannelManager

theorem ringOf_insert (s : ChannelManager) (name other : String) (inner : ChannelInner)
    (e : Exchange SubscriberLabel String) (m : TopicMatcher) :
    ringOf ⟨s.channels.insert name inner, s.defaultBufferSize, m, e⟩ other =
      if other = name then some inner.ring else s.ringOf other := by
  unfold ringOf
  dsimp only
  rw [Table.lookup_insert_eq]
  split_ifs <;> rfl

theorem ringOf_of_lookup {s : ChannelManager} {name : String} {inner : ChannelInner}
    (h : s.channels.lookup name = some inner) : s.ringOf name = some inner.ring := by
  unfold ringOf
  rw [h]
  rfl

/-- The handles are the old ones, except for the one that a `subscribe` has added. -/
def HandlesFrom (s t : ChannelManager) (call : ChannelCall) : Prop :=
  ∀ (i : Nat) h', t.exchange.handles[i]? = some h' →
    (∃ h, s.exchange.handles[i]? = some h ∧ h.Same h') ∨
      i = s.exchange.handles.length ∧ ∃ name client, call = .subscribe name client ∧
        s.ringOf name = some h'.ring ∧ h'.label = (name, client) ∧ h'.got = []

/-- What a call can do to the names, the subscribers, the handles and the logs. -/
structure Effect (s t : ChannelManager) (call : ChannelCall) : Prop where
  handles : HandlesFrom s t call
  rings : ∀ name ring, t.ringOf name = some ring → s.ringOf name = some ring ∨
    ring = s.exchange.rings.length ∧ ∃ size metadata, call = .createChannel name size metadata
  subscribers : ∀ name ring, t.ringOf name = some ring → ∀ client ∈ s.subscribers name,
    client ∈ t.subscribers name ∨ call = .unsubscribe name client
  subscribed : ∀ name client, call = .subscribe name client →
    ∀ ring, s.ringOf name = some ring → client ∈ t.subscribers name
  tails : ∀ ring < s.exchange.rings.length, t.exchange.tail ring = s.exchange.tail ring ∨
    ∃ name, s.ringOf name = some ring

variable {s t : ChannelManager}

theorem HandlesFrom.of_eq {call : ChannelCall} (h : t.exchange.handles = s.exchange.handles) :
    HandlesFrom s t call := by
  intro i h' hi
  rw [h] at hi
  exact .inl ⟨h', hi, .refl h'⟩

/-- What messages sent on channels can do. -/
structure SendEffect (s t : ChannelManager) : Prop where
  handles : ∀ (i : Nat) h', t.exchange.handles[i]? = some h' →
    ∃ h, s.exchange.handles[i]? = some h ∧ h.Same h'
  rings : ∀ name, t.ringOf name = s.ringOf name
  subscribers : ∀ name, t.subscribers name = s.subscribers name
  tails : ∀ ring, t.exchange.tail ring = s.exchange.tail ring ∨ ∃ name, s.ringOf name = some ring

theorem Sends.effect (h : Sends s t) : SendEffect s t := by
  refine h.invariant (P := SendEffect s) ?_
    ⟨fun _ h' hi => ⟨h', hi, .refl h'⟩, fun _ => rfl, fun _ => rfl, fun _ => .inl rfl⟩
  rintro u v hu ⟨name, inner, message, hlookup, rfl⟩
  refine ⟨fun i h' hi => ?_, fun other => ?_, fun other => ?_, fun ring => ?_⟩
  · change (u.exchange.handles.map _)[i]? = some h' at hi
    rw [List.getElem?_map] at hi
    obtain ⟨x, hx, rfl⟩ := Option.map_eq_some_iff.mp hi
    obtain ⟨y, hy, hsame⟩ := hu.handles i x hx
    exact ⟨y, hy, hsame.trans (.published inner.ring message x)⟩
  · refine (u.ringOf_insert ..).trans ?_
    split_ifs with hother
    · rw [← hu.rings, hother, ringOf_of_lookup hlookup]
    · exact hu.rings other
  · rw [subscribers_sendTo hlookup, hu.subscribers]
  · by_cases hring : ring = inner.ring
    · refine .inr ⟨name, ?_⟩
      rw [← hu.rings, ringOf_of_lookup hlookup, hring]
    · change (u.exchange.send inner.ring message).2.tail ring = _ ∨ _
      rw [Exchange.tail_send hring]
      exact hu.tails ring

theorem SendEffect.effect (h : SendEffect s t) {call : ChannelCall}
    (hcall : ∀ name client, call ≠ .subscribe name client) : Effect s t call where
  handles := fun i h' hi => .inl (h.handles i h' hi)
  rings := fun name ring hring => .inl (by rwa [← h.rings])
  subscribers := fun name ring _ client hclient => .inl (by rwa [h.subscribers])
  subscribed := fun name client heq => absurd heq (hcall name client)
  tails := fun ring _ => h.tails ring

/-- A call that changes neither the names nor the subscribers nor the logs. -/
theorem Effect.of_handles {e : Exchange SubscriberLabel String} {call : ChannelCall}
    (hhandles : HandlesFrom s { s with exchange := e } call) (hrings : e.rings = s.exchange.rings)
    (hcall : ∀ name client, call ≠ .subscribe name client) :
    Effect s { s with exchange := e } call where
  handles := hhandles
  rings := fun name ring hring => .inl hring
  subscribers := fun name ring _ client hclient => .inl hclient
  subscribed := fun name client heq => absurd heq (hcall name client)
  tails := fun ring _ => .inl (by
    change e.tail ring = _
    unfold Exchange.tail
    rw [hrings])

theorem handlesFrom_callOn {α : Type*} {i : Nat} {call : ChannelCall}
    {f : RingBuffer String → Handle SubscriberLabel String → α × Handle SubscriberLabel String}
    {r : α × Exchange SubscriberLabel String} (h : s.exchange.callOn i f = some r)
    (hf : ∀ ring (x : Handle SubscriberLabel String), x.live = true → x.Same (f ring x).2) :
    HandlesFrom s { s with exchange := r.2 } call ∧ r.2.rings = s.exchange.rings := by
  obtain ⟨a, e⟩ := r
  obtain ⟨x, ring, hx, -, hlive, -, rfl⟩ := Exchange.callOn_eq_some h
  refine ⟨fun j h' hj => .inl ?_, rfl⟩
  rcases getElem?_set_cases hj with ⟨rfl, rfl⟩ | ⟨-, hold⟩
  · exact ⟨x, hx, hf ring x hlive⟩
  · exact ⟨h', hold, .refl h'⟩

theorem same_tryRecv (ring : RingBuffer String) (x : Handle SubscriberLabel String) (hlive : x.live = true) :
    x.Same (x.tryRecv ring).2 := by
  have hdead : x.live ≠ false := fun h => Bool.false_ne_true (h.symm.trans hlive)
  unfold Handle.tryRecv
  split
  · exact ⟨rfl, rfl, id, fun h => absurd h hdead⟩
  · exact ⟨rfl, rfl, id, fun _ => rfl⟩

theorem same_drain (ring : RingBuffer String) (x : Handle SubscriberLabel String) (hlive : x.live = true) :
    x.Same (x.drain ring).2 :=
  ⟨rfl, rfl, id, fun h => absurd (h.symm.trans hlive) Bool.false_ne_true⟩

theorem effect_createChannel (name : String) (size : Option Nat) (metadata : Option Metadata) :
    Effect s (s.createChannel name size metadata).2 (.createChannel name size metadata) := by
  have hsubscribers := s.subscribers_createChannel name
  refine ⟨.of_eq ?_, fun other ring hring => ?_, fun other ring _ client hclient => .inl ?_, nofun,
    fun ring hlt => .inl ?_⟩
  · unfold createChannel
    split_ifs
    · rfl
    · cases ringCapacity (size.getD s.defaultBufferSize) <;> rfl
  · unfold createChannel at hring
    split_ifs at hring
    · exact .inl hring
    · cases hcapacity : ringCapacity (size.getD s.defaultBufferSize) with
      | error e =>
        rw [hcapacity] at hring
        exact .inl hring
      | ok capacity =>
        rw [hcapacity] at hring
        rw [ringOf_insert] at hring
        split_ifs at hring with hother
        · exact .inr ⟨(Option.some.inj hring).symm, size, metadata, hother ▸ rfl⟩
        · exact .inl hring
  · rwa [hsubscribers]
  · unfold createChannel
    split_ifs
    · rfl
    · cases ringCapacity (size.getD s.defaultBufferSize) with
      | error e => rfl
      | ok capacity => exact Exchange.tail_channel hlt capacity.1 capacity.2

theorem effect_removeChannel (name : String) :
    Effect s (s.removeChannel name).2 (.removeChannel name) := by
  refine ⟨.of_eq ?_, fun other ring hring => .inl ?_, fun other ring hring client hclient => .inl ?_,
    nofun, fun ring _ => .inl ?_⟩
  · unfold removeChannel
    cases s.channels.lookup name <;> rfl
  · unfold removeChannel ringOf at hring
    cases hlookup : s.channels.lookup name with
    | none =>
      rw [hlookup] at hring
      exact hring
    | some inner =>
      rw [hlookup] at hring
      dsimp only at hring
      rw [Table.lookup_erase_eq] at hring
      split_ifs at hring
      · cases hring
      · exact hring
  · rw [subscribers_removeChannel, if_neg]
    · exact hclient
    · rintro rfl
      unfold removeChannel ringOf at hring
      cases hlookup : s.channels.lookup other with
      | none =>
        rw [subscribers, hlookup] at hclient
        exact absurd hclient (Finset.notMem_empty _)
      | some inner =>
        rw [hlookup] at hring
        dsimp only at hring
        rw [AList.lookup_erase] at hring
        cases hring
  · unfold removeChannel
    cases s.channels.lookup name with
    | none => rfl
    | some inner => exact Exchange.tail_close ..

theorem effect_subscribe (name client : String) :
    Effect s (s.subscribe name client).2 (.subscribe name client) := by
  cases hlookup : s.channels.lookup name with
  | none =>
    have hsame : (s.subscribe name client).2 = s := by
      unfold subscribe
      rw [hlookup]
    rw [hsame]
    refine ⟨.of_eq rfl, fun _ _ => .inl, fun _ _ _ _ => .inl, ?_, fun _ _ => .inl rfl⟩
    rintro name' client' heq ring hring
    cases heq
    unfold ringOf at hring
    rw [hlookup] at hring
    cases hring
  | some inner =>
    have hring := ringOf_of_lookup hlookup
    refine ⟨fun i h' hi => ?_, fun other ring h => .inl ?_, fun other ring _ c hc => .inl ?_, ?_,
      fun ring _ => .inl ?_⟩
    · unfold subscribe at hi
      rw [hlookup] at hi
      rcases getElem?_concat_cases hi with hold | ⟨hlast, rfl⟩
      · exact .inl ⟨h', hold, .refl h'⟩
      · exact .inr ⟨hlast, name, client, rfl, hring, rfl, rfl⟩
    · unfold subscribe at h
      rw [hlookup] at h
      rw [ringOf_insert] at h
      split_ifs at h with hother
      · rw [hother, hring]
        exact h
      · exact h
    · rw [subscribers_subscribe hlookup]
      split_ifs with hother
      · exact Finset.mem_insert_of_mem (hother ▸ hc)
      · exact hc
    · rintro name' client' heq ring -
      cases heq
      rw [subscribers_subscribe hlookup, if_pos rfl]
      exact Finset.mem_insert_self ..
    · unfold subscribe
      rw [hlookup]
      rfl

theorem exchange_unsubscribe (s : ChannelManager) (name client : String) :
    (s.unsubscribe name client).2.exchange = s.exchange := by
  unfold unsubscribe
  dsimp only
  cases s.channels.lookup name <;> rfl

theorem ringOf_unsubscribe (s : ChannelManager) (name client other : String) :
    (s.unsubscribe name client).2.ringOf other = s.ringOf other := by
  unfold unsubscribe
  dsimp only
  cases hlookup : s.channels.lookup name with
  | none => rfl
  | some inner =>
    refine (s.ringOf_insert ..).trans ?_
    split_ifs with hother
    · rw [hother, ringOf_of_lookup hlookup]
    · rfl

theorem effect_unsubscribe (name client : String) :
    Effect s (s.unsubscribe name client).2 (.unsubscribe name client) := by
  have hexchange := s.exchange_unsubscribe name client
  refine ⟨.of_eq (congrArg _ hexchange), fun other ring h => .inl ?_, fun other ring _ c hc => ?_,
    nofun, fun ring _ => .inl (by rw [hexchange])⟩
  · rwa [ringOf_unsubscribe] at h
  · rw [subscribers_unsubscribe]
    split_ifs with hother
    · subst hother
      by_cases hclient : c = client
      · exact .inr (hclient ▸ rfl)
      · exact .inl (Finset.mem_erase.mpr ⟨hclient, hc⟩)
    · exact .inl hc

theorem effect_clear : Effect s s.clear .clear := by
  obtain ⟨hhandles, htails⟩ := Exchange.closeAll_same
    (fun c : (_ : String) × ChannelInner => c.2.ring) s.channels.entries s.exchange
  exact ⟨.of_eq hhandles, nofun, nofun, nofun, fun ring _ => .inl (htails ring)⟩

theorem effect_drop (i : Nat) : Effect s { s with exchange := s.exchange.drop i } (.drop i) := by
  refine .of_handles (fun j h' hj => .inl ?_) rfl nofun
  change (s.exchange.handles.modify i _)[j]? = some h' at hj
  rw [List.getElem?_modify] at hj
  obtain ⟨x, hx, rfl⟩ := Option.map_eq_some_iff.mp hj
  refine ⟨x, hx, ?_⟩
  split_ifs
  · exact ⟨rfl, rfl, nofun, fun _ => rfl⟩
  · exact .refl x

theorem step_effect {call : ChannelCall} (hstep : s.step call = some t) : Effect s t call := by
  cases call with
  | createChannel name size metadata =>
    cases hstep
    exact effect_createChannel name size metadata
  | removeChannel name =>
    cases hstep
    exact effect_removeChannel name
  | subscribe name client =>
    cases hstep
    exact effect_subscribe name client
  | unsubscribe name client =>
    cases hstep
    exact effect_unsubscribe name client
  | publish name message =>
    cases hstep
    exact (s.publish_sends name message).effect.effect nofun
  | publishToTopic topic message order =>
    obtain rfl := step_publishToTopic hstep
    exact (s.publishToTopic_sends topic message order).effect.effect nofun
  | clear =>
    cases hstep
    exact effect_clear
  | tryRecv i =>
    obtain ⟨r, hcall, rfl⟩ := Option.map_eq_some_iff.mp hstep
    obtain ⟨hhandles, hrings⟩ := handlesFrom_callOn hcall same_tryRecv
    exact .of_handles hhandles hrings nofun
  | drain i =>
    obtain ⟨r, hcall, rfl⟩ := Option.map_eq_some_iff.mp hstep
    obtain ⟨hhandles, hrings⟩ := handlesFrom_callOn hcall same_drain
    exact .of_handles hhandles hrings nofun
  | drop i =>
    cases hstep
    exact effect_drop i

end ChannelManager

namespace Delivery

/-! ## The count of `publish` -/

theorem receivers_eq_iff {s : ChannelManager} {name : String} {ring : Nat}
    (hring : s.ringOf name = some ring) :
    s.exchange.receivers ring = subscribedHandles s name ↔
      ∀ h ∈ s.exchange.handles, h.live = true → h.ring = ring → h.label.2 ∈ s.subscribers name := by
  have hcount : subscribedHandles s name =
      (s.exchange.handles.filter fun h => h.live && h.ring == ring).countP
        fun h => decide (h.label.2 ∈ s.subscribers name) := by
    unfold subscribedHandles
    rw [List.countP_filter, hring]
    refine List.countP_congr fun h _ => ?_
    simp only [Bool.and_eq_true, decide_eq_true_eq, Option.some.injEq, beq_iff_eq]
    tauto
  rw [hcount, Exchange.receivers, List.countP_eq_length_filter, eq_comm, List.countP_eq_length]
  simp only [List.mem_filter, Bool.and_eq_true, beq_iff_eq, decide_eq_true_eq, and_imp]

theorem publish_ok {s : ChannelManager} {name message : String} {n : Nat}
    (h : (s.publish name message).1 = .ok n) :
    ∃ ring, s.ringOf name = some ring ∧ n = s.exchange.receivers ring := by
  unfold ChannelManager.publish at h
  cases hlookup : s.channels.lookup name with
  | none =>
    rw [hlookup] at h
    cases h
  | some inner =>
    rw [hlookup] at h
    exact ⟨inner.ring, ChannelManager.ringOf_of_lookup hlookup, (Except.ok.inj h).symm⟩

theorem publish_of_ring {s : ChannelManager} {name : String} {ring : Nat}
    (h : s.ringOf name = some ring) (message : String) :
    (s.publish name message).1 = .ok (s.exchange.receivers ring) := by
  unfold ChannelManager.ringOf at h
  obtain ⟨inner, hlookup, rfl⟩ := Option.map_eq_some_iff.mp h
  unfold ChannelManager.publish
  rw [hlookup]
  rfl

/-! ## The invariant -/

structure Sound (d : Delivery) : Prop where
  order : d.manager.InOrder
  injective : ∀ name name' ring, d.manager.ringOf name = some ring →
    d.manager.ringOf name' = some ring → name = name'
  labels : ∀ h ∈ d.manager.exchange.handles, ∀ name, d.manager.ringOf name = some h.ring →
    h.label.1 = name
  members : ∀ h ∈ d.manager.exchange.handles, h.live = true →
    ∀ name, d.manager.ringOf name = some h.ring → h.label.2 ∈ d.manager.subscribers name
  /-- Whoever is unsubscribed and still holds a handle holds one of a channel that is gone. -/
  detached : ∀ (i : Nat) h, d.manager.exchange.handles[i]? = some h → h.live = true →
    (d.watch i).stopped = true → ∀ name, d.manager.ringOf name ≠ some h.ring
  clean : ∀ (i : Nat) h, d.manager.exchange.handles[i]? = some h → h.live = true →
    (d.watch i).banned = []
  stops : ∀ (i : Nat) h, d.manager.exchange.handles[i]? = some h →
    ∀ p ∈ h.got, p ∉ (d.watch i).banned

variable {d d' : Delivery} {call : ChannelCall}

theorem Sound.delivers (h : Sound d) : Delivers d := by
  refine ⟨h.stops, fun name message n hpublish => ?_⟩
  obtain ⟨ring, hring, rfl⟩ := publish_ok hpublish
  refine (receivers_eq_iff hring).mpr fun x hx hlive hxring => ?_
  exact h.members x hx hlive name (hxring ▸ hring)

theorem Sound.start (defaultBufferSize : Nat) : Sound (start defaultBufferSize) where
  order := ⟨nofun, nofun⟩
  injective := nofun
  labels := nofun
  members := nofun
  detached := nofun
  clean := nofun
  stops := nofun

theorem ringOf_lt {s : ChannelManager} (h : s.InOrder) {name : String} {ring : Nat}
    (hring : s.ringOf name = some ring) : ring < s.exchange.rings.length := by
  obtain ⟨inner, hlookup, rfl⟩ := Option.map_eq_some_iff.mp hring
  exact h.wired name inner hlookup

theorem handle_ring_lt {s : ChannelManager} (h : s.InOrder) {x : Handle SubscriberLabel String}
    (hx : x ∈ s.exchange.handles) : x.ring < s.exchange.rings.length := by
  obtain ⟨r, hr, -⟩ := h.kept x hx
  exact (List.getElem?_eq_some_iff.mp hr).1

theorem stopped_of_stoppedAfter {s : ChannelManager} {label : SubscriberLabel} {stopped : Bool}
    (h : stoppedAfter s label stopped call = true) :
    stopped = true ∨ call = .unsubscribe label.1 label.2 := by
  cases call with
  | subscribe name client =>
    unfold stoppedAfter at h
    dsimp only at h
    split_ifs at h
    · exact .inl h
  | unsubscribe name client =>
    unfold stoppedAfter at h
    dsimp only at h
    split_ifs at h with hc
    · rw [hc.1]
      exact .inr rfl
    · exact .inl h
  | _ => exact .inl h

/-- What one step does to the manager and to the watch on every handle. -/
structure Stepped (d d' : Delivery) (call : ChannelCall) : Prop where
  effect : ChannelManager.Effect d.manager d'.manager call
  watchOld : ∀ (i : Nat) h, d.manager.exchange.handles[i]? = some h →
    d'.watch i = watchAfter d.manager d'.manager call (d.watch i) h
  watchNew : d'.watch d.manager.exchange.handles.length = ⟨false, []⟩

theorem Stepped.of_step (hstep : step d call = some d') : Stepped d d' call := by
  obtain ⟨t, ht, rfl⟩ := Option.map_eq_some_iff.mp hstep
  refine ⟨ChannelManager.step_effect ht, fun i h hi => ?_, ?_⟩
  · dsimp only
    rw [hi]
  · dsimp only
    rw [List.getElem?_eq_none (Nat.le_refl _)]

theorem Sound.banned_of_live (hd : Sound d) {t : ChannelManager}
    (heffect : ChannelManager.Effect d.manager t call) {i : Nat} {h : Handle SubscriberLabel String}
    (hi : d.manager.exchange.handles[i]? = some h) (hlive : h.live = true) :
    (watchAfter d.manager t call (d.watch i) h).banned = [] := by
  unfold watchAfter
  dsimp only
  rw [hd.clean i h hi hlive]
  split_ifs with hstopped
  · have hlt := handle_ring_lt hd.order (List.mem_of_getElem? hi)
    rcases heffect.tails h.ring hlt with htail | ⟨name, hname⟩
    · rw [htail, Nat.sub_self]
      rfl
    · exact absurd hname (hd.detached i h hi hlive hstopped name)
  · rfl

/-- Whatever a dropped handle has returned was there before the call. -/
theorem Sound.got_lt_tail (hd : Sound d) {h : Handle SubscriberLabel String}
    (hmem : h ∈ d.manager.exchange.handles) {p : Nat} (hp : p ∈ h.got) :
    p < d.manager.exchange.tail h.ring := by
  obtain ⟨r, hr, haccounted⟩ := hd.order.kept h hmem
  unfold Exchange.tail
  rw [hr]
  exact Nat.lt_of_lt_of_le (haccounted.got_lt p hp) haccounted.next_le

/-- A name leads to the channel of an old handle only if it did before the call. -/
theorem Stepped.ringOf_handle (hs : Stepped d d' call) (hd : Sound d) {i : Nat}
    {h : Handle SubscriberLabel String} (hi : d.manager.exchange.handles[i]? = some h) {name : String}
    (hname : d'.manager.ringOf name = some h.ring) : d.manager.ringOf name = some h.ring := by
  rcases hs.effect.rings name h.ring hname with hbefore | ⟨hfresh, -⟩
  · exact hbefore
  · have hlt := handle_ring_lt hd.order (List.mem_of_getElem? hi)
    exact absurd hlt (Nat.not_lt.mpr (Nat.le_of_eq hfresh.symm))

/-- No other name leads to a channel that was there before the call. -/
theorem Stepped.ringOf_unique (hs : Stepped d d' call) (hd : Sound d) {name name' : String} {ring : Nat}
    (hname : d.manager.ringOf name = some ring) (hname' : d'.manager.ringOf name' = some ring) :
    name = name' := by
  rcases hs.effect.rings name' ring hname' with hbefore | ⟨rfl, -⟩
  · exact hd.injective name name' ring hname hbefore
  · exact absurd (ringOf_lt hd.order hname) (Nat.lt_irrefl _)

theorem Stepped.injective (hs : Stepped d d' call) (hd : Sound d) (name name' : String) (ring : Nat)
    (hname : d'.manager.ringOf name = some ring) (hname' : d'.manager.ringOf name' = some ring) :
    name = name' := by
  rcases hs.effect.rings name ring hname with hbefore | ⟨-, size, metadata, heq⟩
  · exact hs.ringOf_unique hd hbefore hname'
  · rcases hs.effect.rings name' ring hname' with hbefore' | ⟨-, size', metadata', heq'⟩
    · exact (hs.ringOf_unique hd hbefore' hname).symm
    · rw [heq] at heq'
      exact (ChannelCall.createChannel.inj heq').1

theorem Stepped.labels (hs : Stepped d d' call) (hd : Sound d) {h' : Handle SubscriberLabel String}
    (hmem : h' ∈ d'.manager.exchange.handles) (name : String)
    (hname : d'.manager.ringOf name = some h'.ring) : h'.label.1 = name := by
  obtain ⟨i, hi⟩ := List.mem_iff_getElem?.mp hmem
  rcases hs.effect.handles i h' hi with ⟨h, hh, hsame⟩ | ⟨-, other, client, -, hother, hlabel, -⟩
  · rw [hsame.ring] at hname
    rw [hsame.label]
    exact hd.labels h (List.mem_of_getElem? hh) name (hs.ringOf_handle hd hh hname)
  · rw [hlabel]
    exact hs.ringOf_unique hd hother hname

theorem Stepped.members (hs : Stepped d d' call) (hd : Sound d) (hcall : LeavesWithout d call)
    {h' : Handle SubscriberLabel String} (hmem : h' ∈ d'.manager.exchange.handles)
    (hlive : h'.live = true) (name : String) (hname : d'.manager.ringOf name = some h'.ring) :
    h'.label.2 ∈ d'.manager.subscribers name := by
  obtain ⟨i, hi⟩ := List.mem_iff_getElem?.mp hmem
  rcases hs.effect.handles i h' hi with ⟨h, hh, hsame⟩ | ⟨-, other, client, rfl, hother, hlabel, -⟩
  · have hbefore := hs.ringOf_handle hd hh (hsame.ring ▸ hname)
    have hmember := hd.members h (List.mem_of_getElem? hh) (hsame.live hlive) name hbefore
    rw [hsame.label]
    rcases hs.effect.subscribers name _ hname _ hmember with hstays | rfl
    · exact hstays
    · exact absurd rfl (hcall h (List.mem_of_getElem? hh) (hsame.live hlive) hbefore)
  · obtain rfl := hs.ringOf_unique hd hother hname
    rw [hlabel]
    exact hs.effect.subscribed other client rfl _ hother

theorem Stepped.detached (hs : Stepped d d' call) (hd : Sound d) (hcall : LeavesWithout d call)
    {i : Nat} {h' : Handle SubscriberLabel String} (hi : d'.manager.exchange.handles[i]? = some h')
    (hlive : h'.live = true) (hstopped : (d'.watch i).stopped = true) (name : String) :
    d'.manager.ringOf name ≠ some h'.ring := by
  intro hname
  rcases hs.effect.handles i h' hi with ⟨h, hh, hsame⟩ | ⟨rfl, -⟩
  · have hbefore := hs.ringOf_handle hd hh (hsame.ring ▸ hname)
    rw [hs.watchOld i h hh] at hstopped
    rcases stopped_of_stoppedAfter hstopped with hwas | rfl
    · exact hd.detached i h hh (hsame.live hlive) hwas name hbefore
    · rw [← hd.labels h (List.mem_of_getElem? hh) name hbefore] at hbefore
      exact hcall h (List.mem_of_getElem? hh) (hsame.live hlive) hbefore rfl
  · rw [hs.watchNew] at hstopped
    cases hstopped

theorem Stepped.clean (hs : Stepped d d' call) (hd : Sound d) {i : Nat}
    {h' : Handle SubscriberLabel String} (hi : d'.manager.exchange.handles[i]? = some h')
    (hlive : h'.live = true) : (d'.watch i).banned = [] := by
  rcases hs.effect.handles i h' hi with ⟨h, hh, hsame⟩ | ⟨rfl, -⟩
  · rw [hs.watchOld i h hh]
    exact hd.banned_of_live hs.effect hh (hsame.live hlive)
  · rw [hs.watchNew]

theorem Stepped.stops (hs : Stepped d d' call) (hd : Sound d) {i : Nat}
    {h' : Handle SubscriberLabel String} (hi : d'.manager.exchange.handles[i]? = some h') {p : Nat}
    (hp : p ∈ h'.got) : p ∉ (d'.watch i).banned := by
  rcases hs.effect.handles i h' hi with ⟨h, hh, hsame⟩ | ⟨-, _, _, -, -, -, hgot⟩
  · rw [hs.watchOld i h hh]
    cases hlive : h.live with
    | true =>
      rw [hd.banned_of_live hs.effect hh hlive]
      exact List.not_mem_nil
    | false =>
      rw [hsame.got hlive] at hp
      have hbanned := hd.stops i h hh p hp
      unfold watchAfter
      dsimp only
      split_ifs
      · rw [List.mem_append, List.mem_range'_1]
        have hpos := hd.got_lt_tail (List.mem_of_getElem? hh) hp
        rintro (hin | ⟨hle, -⟩)
        · exact hbanned hin
        · exact absurd hpos (Nat.not_lt.mpr hle)
      · exact hbanned
  · rw [hgot] at hp
    exact absurd hp List.not_mem_nil

theorem Sound.step (hd : Sound d) (hcall : LeavesWithout d call) (hstep : step d call = some d') :
    Sound d' := by
  have hs := Stepped.of_step hstep
  obtain ⟨t, ht, rfl⟩ := Option.map_eq_some_iff.mp hstep
  obtain ⟨hmoves, hwired⟩ := ChannelManager.step_moves hd.order.wired ht
  exact {
    order := ⟨hd.order.kept.moves hmoves, hwired⟩
    injective := hs.injective hd
    labels := fun _ hmem => hs.labels hd hmem
    members := fun _ hmem => hs.members hd hcall hmem
    detached := fun _ _ hi => hs.detached hd hcall hi
    clean := fun _ _ hi => hs.clean hd hi
    stops := fun _ _ hi _ hp => hs.stops hd hi hp }

/-- A client that is unsubscribed while it holds a handle is counted by the next `publish`. -/
theorem leavesWithout_of_delivers (hstep : step d call = some d') (hd' : Delivers d') :
    LeavesWithout d call := by
  obtain ⟨t, ht, rfl⟩ := Option.map_eq_some_iff.mp hstep
  cases call with
  | unsubscribe name client =>
    intro h hmem hlive hring hclient
    obtain rfl : (d.manager.unsubscribe name client).2 = t := Option.some.inj ht
    rw [← d.manager.ringOf_unsubscribe name client] at hring
    rw [← d.manager.exchange_unsubscribe name client] at hmem
    have hcount := hd'.counts name "" _ (publish_of_ring hring "")
    have hmember := (receivers_eq_iff hring).mp hcount h hmem hlive rfl
    rw [ChannelManager.subscribers_unsubscribe, if_pos rfl, hclient] at hmember
    exact Finset.notMem_erase _ _ hmember
  | _ => trivial

/-- Leaving a channel stops delivery in the runs in which nobody leaves a channel with a handle
in hand, and in no others. -/
theorem delivers_iff_leavesWithout (defaultBufferSize : Nat) (calls : List ChannelCall) :
    Always step Delivers (start defaultBufferSize) calls ↔
      Along step (fun d call => ∀ d', step d call = some d' → LeavesWithout d call)
        (start defaultBufferSize) calls := by
  refine always_iff_along_of_inv Sound (.start defaultBufferSize) (fun _ => Sound.delivers) ?_ ?_
  · exact fun d call d' hd hcall hstep => hd.step hcall hstep
  · exact fun d call d' _ hstep hd' => leavesWithout_of_delivers hstep hd'

/-- The handle of a client that has left returns the next message. -/
theorem left_handle_receives :
    ∃ d, exec step (start 256) [.createChannel "chat" none none, .subscribe "chat" "alice",
        .unsubscribe "chat" "alice", .publish "chat" "hi", .tryRecv 0] = some d ∧
      ¬ Delivers d := by
  refine ⟨_, rfl, fun h => ?_⟩
  refine h.stops 0 _ rfl 0 ?_ ?_
  · decide +kernel
  · decide +kernel

end Delivery

end Hypern.Realtime
