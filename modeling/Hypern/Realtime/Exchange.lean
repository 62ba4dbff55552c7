import Mathlib.Logic.Relation
import Hypern.Realtime.Subscriber

/-! Broadcast channels and the handles on them. Both managers move an exchange by the same few
moves, so what holds of the handles of one holds of the handles of the other. -/

namespace Hypern.Realtime

open Lib

/-- A handle and its past: the messages published on its channel since it was made, those it has
returned, and the positions these had. -/
structure Handle (K M : Type*) where
  label : K
  ring : Nat
  reader : Reader
  live : Bool
  start : Nat
  since : List M
  returned : List M
  got : List Nat

namespace Handle

variable {K M : Type*}

def new (label : K) (ring start : Nat) : Handle K M :=
  ⟨label, ring, ⟨start, 0, 0⟩, true, start, [], [], []⟩

def tryRecv (r : RingBuffer M) (h : Handle K M) : Option M × Handle K M :=
  match h.reader.tryRecv r with
  | (some msg, reader) =>
    (some msg, { h with reader := reader, returned := h.returned ++ [msg],
                        got := h.got ++ [reader.next - 1] })
  | (none, reader) => (none, { h with reader := reader })

def drain (r : RingBuffer M) (h : Handle K M) : List M × Handle K M :=
  let (msgs, reader) := h.reader.drain r
  (msgs, { h with reader := reader, returned := h.returned ++ msgs,
                  got := h.got ++ List.range' (reader.next - msgs.length) msgs.length })

def published (ring : Nat) (msg : M) (h : Handle K M) : Handle K M :=
  if h.ring = ring then { h with since := h.since ++ [msg] } else h

end Handle

structure Exchange (K M : Type*) where
  rings : List (RingBuffer M)
  handles : List (Handle K M)

namespace Exchange

variable {K M : Type*} (e : Exchange K M)

def empty : Exchange K M := ⟨[], []⟩

/-- `broadcast::channel(capacity)`; the channel is the last of the list. -/
def channel (capacity : Nat) (hpos : 0 < capacity) : Exchange K M :=
  { e with rings := e.rings ++ [⟨capacity, hpos, [], false⟩] }

/-- The position of the next message. -/
def tail (ring : Nat) : Nat :=
  match e.rings[ring]? with
  | some r => r.log.length
  | none => 0

def subscribe (ring : Nat) (label : K) : Exchange K M :=
  { e with handles := e.handles ++ [.new label ring (e.tail ring)] }

/-- The receivers of a channel that have not been dropped. -/
def receivers (ring : Nat) : Nat := e.handles.countP fun h => h.live && h.ring == ring

/-- `sender.send`: the number of receivers, where zero is the error; then nothing is stored. -/
def send (ring : Nat) (msg : M) : Nat × Exchange K M :=
  (e.receivers ring,
    { rings := if e.receivers ring = 0 then e.rings else e.rings.modify ring (·.push msg)
      handles := e.handles.map (·.published ring msg) })

/-- A call on a handle that is still held. -/
def callOn {α : Type*} (i : Nat) (f : RingBuffer M → Handle K M → α × Handle K M) :
    Option (α × Exchange K M) :=
  match e.handles[i]? with
  | none => none
  | some h =>
    match e.rings[h.ring]? with
    | none => none
    | some r =>
      if h.live then some ((f r h).1, { e with handles := e.handles.set i (f r h).2 }) else none

def drop (i : Nat) : Exchange K M :=
  { e with handles := e.handles.modify i fun h => { h with live := false } }

/-- The sender is dropped. -/
def close (ring : Nat) : Exchange K M := { e with rings := e.rings.modify ring (·.close) }

/-! ## Moves -/

inductive Move : Exchange K M → Exchange K M → Prop
  | channel (e : Exchange K M) (capacity : Nat) (hpos : 0 < capacity) : Move e (e.channel capacity hpos)
  | subscribe (e : Exchange K M) (ring : Nat) (label : K) (h : ring < e.rings.length) :
    Move e (e.subscribe ring label)
  | send (e : Exchange K M) (ring : Nat) (msg : M) : Move e (e.send ring msg).2
  | tryRecv {e e' : Exchange K M} {i : Nat} {r : Option M}
    (h : e.callOn i Handle.tryRecv = some (r, e')) : Move e e'
  | drain {e e' : Exchange K M} {i : Nat} {r : List M}
    (h : e.callOn i Handle.drain = some (r, e')) : Move e e'
  | drop (e : Exchange K M) (i : Nat) : Move e (e.drop i)
  | close (e : Exchange K M) (ring : Nat) : Move e (e.close ring)

abbrev Moves : Exchange K M → Exchange K M → Prop := Relation.ReflTransGen Move

end Exchange

/-! ## Accounting -/

/-- The books of a handle: the counters make up the distance from where it started, what it has
returned is part of what was published, in its order, and nothing published escapes it. -/
structure Accounted {K M : Type*} (r : RingBuffer M) (h : Handle K M) : Prop where
  next_le : h.reader.next ≤ r.log.length
  count : h.reader.received + h.reader.missed + h.start = h.reader.next
  returned : h.returned.Sublist ((r.log.take h.reader.next).drop h.start)
  length : h.returned.length = h.reader.received
  since : h.live = true → h.since = r.log.drop h.start
  positions : h.returned.map some = h.got.map (r.log[·]?)
  got_lt : ∀ p ∈ h.got, p < h.reader.next

namespace Accounted

variable {K M : Type*} {r : RingBuffer M} {h : Handle K M}

theorem new (label : K) (ring : Nat) (r : RingBuffer M) : Accounted r (.new label ring r.log.length) where
  next_le := Nat.le_refl _
  count := Nat.zero_add _
  returned := List.nil_sublist _
  length := rfl
  since := fun _ => (List.drop_length ..).symm
  positions := rfl
  got_lt := nofun

theorem start_le (ha : Accounted r h) : h.start ≤ h.reader.next := by
  have hcount := ha.count
  omega

end Accounted

namespace Handle

variable {K M : Type*} {r : RingBuffer M} {h : Handle K M}

/-- The handle after it has skipped to `p` and returned what stands between `p` and `q`. -/
def advance (r : RingBuffer M) (h : Handle K M) (p q : Nat) : Handle K M :=
  { h with
    reader := ⟨q, h.reader.received + (q - p), h.reader.missed + (p - h.reader.next)⟩
    returned := h.returned ++ (r.log.take q).drop p
    got := h.got ++ List.range' p (q - p) }

theorem tryRecv_of_le (hle : r.log.length ≤ h.reader.next) : h.tryRecv r = (none, h) := by
  unfold tryRecv
  rw [Reader.tryRecv_of_le hle]

theorem tryRecv_of_lt (hlt : h.reader.next < r.log.length) :
    h.tryRecv r = (some (r.log.get ⟨r.oldest h.reader.next, RingBuffer.oldest_lt hlt⟩),
      h.advance r (r.oldest h.reader.next) (r.oldest h.reader.next + 1)) := by
  have hblock : (r.log.take (r.oldest h.reader.next + 1)).drop (r.oldest h.reader.next) =
      [r.log.get ⟨r.oldest h.reader.next, RingBuffer.oldest_lt hlt⟩] := by
    rw [List.drop_take, Nat.add_sub_cancel_left, List.drop_eq_getElem_cons (RingBuffer.oldest_lt hlt)]
    rfl
  unfold tryRecv advance
  rw [Reader.tryRecv_of_lt hlt, hblock, Nat.add_sub_cancel_left]
  rfl

theorem drain_eq (hle : h.reader.next ≤ r.log.length) :
    h.drain r = (r.log.drop (r.oldest h.reader.next),
      h.advance r (r.oldest h.reader.next) r.log.length) := by
  have hback : r.log.length - (r.log.length - r.oldest h.reader.next) = r.oldest h.reader.next :=
    Nat.sub_sub_self (RingBuffer.oldest_le hle)
  unfold drain advance
  rw [Reader.drain_eq hle]
  dsimp only
  rw [List.length_drop, hback, List.take_length]

end Handle

theorem map_some_block {M : Type*} {log : List M} {p q : Nat} (hq : q ≤ log.length) :
    ((log.take q).drop p).map some = (List.range' p (q - p)).map (log[·]?) := by
  apply List.ext_getElem
  · rw [List.length_map, List.length_map, List.length_drop, List.length_take, List.length_range',
      Nat.min_eq_left hq]
  · intro i hi _
    rw [List.length_map, List.length_drop, List.length_take] at hi
    have hlt : p + i < log.length := by omega
    simp only [List.getElem_map, List.getElem_drop, List.getElem_take, List.getElem_range', Nat.one_mul,
      List.getElem?_eq_getElem hlt]

namespace Accounted

variable {K M : Type*} {r : RingBuffer M} {h : Handle K M}

theorem advance (ha : Accounted r h) {p q : Nat} (hp : h.reader.next ≤ p) (hpq : p ≤ q)
    (hq : q ≤ r.log.length) : Accounted r (h.advance r p q) where
  next_le := hq
  count := by
    have hcount := ha.count
    change h.reader.received + (q - p) + (h.reader.missed + (p - h.reader.next)) + h.start = q
    omega
  returned := by
    -- what has been passed falls into the part up to the old position and the part after it
    have hsplit : (r.log.take q).drop h.start =
        (r.log.take h.reader.next).drop h.start ++ (r.log.take q).drop h.reader.next := by
      have htake : r.log.take h.reader.next = (r.log.take q).take h.reader.next := by
        rw [List.take_take, Nat.min_eq_left (Nat.le_trans hp hpq)]
      rw [htake]
      conv_lhs => rw [← List.take_append_drop h.reader.next (r.log.take q)]
      rw [List.drop_append_of_le_length]
      rw [List.length_take, List.length_take]
      have hstart := ha.start_le
      omega
    change (h.returned ++ (r.log.take q).drop p).Sublist ((r.log.take q).drop h.start)
    rw [hsplit]
    exact ha.returned.append (List.drop_sublist_drop_left _ hp)
  length := by
    change (h.returned ++ (r.log.take q).drop p).length = h.reader.received + (q - p)
    rw [List.length_append, ha.length, List.length_drop, List.length_take, Nat.min_eq_left hq]
  since := ha.since
  positions := by
    change (h.returned ++ (r.log.take q).drop p).map some =
      (h.got ++ List.range' p (q - p)).map (r.log[·]?)
    rw [List.map_append, List.map_append, ha.positions, map_some_block hq]
  got_lt := by
    intro n hn
    change n < q
    rcases List.mem_append.mp hn with hold | hnew
    · exact Nat.lt_of_lt_of_le (ha.got_lt n hold) (Nat.le_trans hp hpq)
    · have hrange := List.mem_range'_1.mp hnew
      omega

theorem tryRecv (ha : Accounted r h) : Accounted r (h.tryRecv r).2 := by
  rcases Nat.lt_or_ge h.reader.next r.log.length with hlt | hge
  · rw [Handle.tryRecv_of_lt hlt]
    exact ha.advance RingBuffer.le_oldest (Nat.le_succ _) (RingBuffer.oldest_lt hlt)
  · rw [Handle.tryRecv_of_le hge]
    exact ha

theorem drain (ha : Accounted r h) : Accounted r (h.drain r).2 := by
  rw [Handle.drain_eq ha.next_le]
  exact ha.advance RingBuffer.le_oldest (RingBuffer.oldest_le ha.next_le) (Nat.le_refl _)

/-- A longer log keeps the books of a handle that has seen the message published. -/
theorem push (ha : Accounted r h) (msg : M) :
    Accounted (r.push msg) { h with since := h.since ++ [msg] } := by
  have htake : (r.log ++ [msg]).take h.reader.next = r.log.take h.reader.next :=
    List.take_append_of_le_length ha.next_le
  have hdrop : (r.log ++ [msg]).drop h.start = r.log.drop h.start ++ [msg] :=
    List.drop_append_of_le_length (Nat.le_trans ha.start_le ha.next_le)
  refine ⟨?_, ha.count, ?_, ha.length, fun hlive => ?_, ?_, ha.got_lt⟩
  · change h.reader.next ≤ (r.log ++ [msg]).length
    rw [List.length_append]
    exact Nat.le_add_right_of_le ha.next_le
  · change h.returned.Sublist (((r.log ++ [msg]).take h.reader.next).drop h.start)
    rw [htake]
    exact ha.returned
  · change h.since ++ [msg] = (r.log ++ [msg]).drop h.start
    rw [hdrop, ha.since hlive]
  · rw [ha.positions]
    refine List.map_congr_left fun p hp => ?_
    exact (List.getElem?_append_left (Nat.lt_of_lt_of_le (ha.got_lt p hp) ha.next_le)).symm

theorem dropped (ha : Accounted r h) : Accounted r { h with live := false } :=
  ⟨ha.next_le, ha.count, ha.returned, ha.length, nofun, ha.positions, ha.got_lt⟩

/-- A handle that has been dropped misses what is published. -/
theorem missed (ha : Accounted r h) (hlive : h.live = false) (since : List M) :
    Accounted r { h with since := since } :=
  ⟨ha.next_le, ha.count, ha.returned, ha.length,
    fun hlive' => absurd (hlive.symm.trans hlive') Bool.false_ne_true, ha.positions, ha.got_lt⟩

theorem close (ha : Accounted r h) : Accounted r.close h :=
  ⟨ha.next_le, ha.count, ha.returned, ha.length, ha.since, ha.positions, ha.got_lt⟩

end Accounted

namespace Exchange

variable {K M : Type*} {e e' : Exchange K M}

/-- The books of all handles. -/
def Kept (e : Exchange K M) : Prop :=
  ∀ h ∈ e.handles, ∃ r, e.rings[h.ring]? = some r ∧ Accounted r h

theorem getElem?_modify_ring {f : RingBuffer M → RingBuffer M} {rings : List (RingBuffer M)} {i : Nat} (j : Nat)
    {r : RingBuffer M} (h : rings[i]? = some r) :
    (rings.modify j f)[i]? = some (if i = j then f r else r) := by
  rw [List.getElem?_modify, h]
  exact congrArg some (if_congr eq_comm rfl rfl)

theorem Kept.channel (h : Kept e) (capacity : Nat) (hpos : 0 < capacity) :
    Kept (e.channel capacity hpos) := by
  intro x hx
  obtain ⟨r, hr, ha⟩ := h x hx
  exact ⟨r, (List.getElem?_append_left (List.getElem?_eq_some_iff.mp hr).1).trans hr, ha⟩

theorem Kept.subscribe (h : Kept e) {ring : Nat} (label : K) (hring : ring < e.rings.length) :
    Kept (e.subscribe ring label) := by
  have hr : e.rings[ring]? = some e.rings[ring] := List.getElem?_eq_getElem hring
  have htail : e.tail ring = e.rings[ring].log.length := by
    unfold tail
    rw [hr]
  refine forall_mem_concat h ⟨e.rings[ring], hr, ?_⟩
  rw [htail]
  exact .new label ring e.rings[ring]

theorem receivers_pos {ring : Nat} {x : Handle K M} (hx : x ∈ e.handles) (hring : x.ring = ring)
    (hlive : x.live = true) : e.receivers ring ≠ 0 := by
  refine Nat.pos_iff_ne_zero.mp (List.countP_pos_iff.mpr ⟨x, hx, ?_⟩)
  rw [hlive, hring, beq_self_eq_true]
  rfl

theorem Kept.send (h : Kept e) (ring : Nat) (msg : M) : Kept (e.send ring msg).2 := by
  intro x hx
  obtain ⟨y, hy, rfl⟩ := List.mem_map.mp hx
  obtain ⟨r, hr, ha⟩ := h y hy
  unfold Handle.published Exchange.send
  dsimp only
  by_cases hring : y.ring = ring
  · rw [if_pos hring]
    by_cases hzero : e.receivers ring = 0
    · rw [if_pos hzero]
      have hlive : y.live = false := by
        rw [← Bool.not_eq_true]
        exact fun hlive => receivers_pos hy hring hlive hzero
      exact ⟨r, hr, ha.missed hlive _⟩
    · rw [if_neg hzero]
      refine ⟨r.push msg, ?_, ha.push msg⟩
      exact (getElem?_modify_ring ring hr).trans (congrArg some (if_pos hring))
  · rw [if_neg hring]
    refine ⟨r, ?_, ha⟩
    split_ifs
    · exact hr
    · exact (getElem?_modify_ring ring hr).trans (congrArg some (if_neg hring))

theorem callOn_eq_some {α : Type*} {i : Nat} {f : RingBuffer M → Handle K M → α × Handle K M} {a : α}
    (h : e.callOn i f = some (a, e')) :
    ∃ x r, e.handles[i]? = some x ∧ e.rings[x.ring]? = some r ∧ x.live = true ∧ a = (f r x).1 ∧
      e' = { e with handles := e.handles.set i (f r x).2 } := by
  unfold callOn at h
  cases hx : e.handles[i]? with
  | none =>
    rw [hx] at h
    cases h
  | some x =>
    rw [hx] at h
    dsimp only at h
    cases hr : e.rings[x.ring]? with
    | none =>
      rw [hr] at h
      cases h
    | some r =>
      rw [hr] at h
      obtain ⟨hlive, heq⟩ := Option.ite_none_right_eq_some.mp h
      obtain ⟨rfl, rfl⟩ := Prod.mk.inj (Option.some.inj heq)
      exact ⟨x, r, rfl, hr, hlive, rfl, rfl⟩

theorem Kept.callOn {α : Type*} {i : Nat} {f : RingBuffer M → Handle K M → α × Handle K M} {a : α}
    (h : Kept e) (hring : ∀ r x, (f r x).2.ring = x.ring)
    (hf : ∀ r x, Accounted r x → Accounted r (f r x).2) (hcall : e.callOn i f = some (a, e')) :
    Kept e' := by
  obtain ⟨x, r, hx, hr, -, -, rfl⟩ := callOn_eq_some hcall
  refine forall_mem_set h ⟨r, ?_, ?_⟩
  · rw [hring]
    exact hr
  · obtain ⟨r', hr', ha⟩ := h x (List.mem_of_getElem? hx)
    obtain rfl := Option.some.inj (hr.symm.trans hr')
    exact hf r x ha

theorem ring_tryRecv (r : RingBuffer M) (h : Handle K M) : (h.tryRecv r).2.ring = h.ring := by
  unfold Handle.tryRecv
  split <;> rfl

theorem Kept.move (h : Kept e) (hmove : Move e e') : Kept e' := by
  cases hmove with
  | channel capacity hpos => exact h.channel capacity hpos
  | subscribe ring label hring => exact h.subscribe label hring
  | send ring msg => exact h.send ring msg
  | tryRecv hcall => exact h.callOn ring_tryRecv (fun _ _ => Accounted.tryRecv) hcall
  | drain hcall => exact h.callOn (fun _ _ => rfl) (fun _ _ => Accounted.drain) hcall
  | drop i =>
    intro x hx
    obtain ⟨j, hj⟩ := List.mem_iff_getElem?.mp hx
    rw [show (e.drop i).handles = e.handles.modify i _ from rfl, List.getElem?_modify] at hj
    obtain ⟨y, hy, rfl⟩ := Option.map_eq_some_iff.mp hj
    obtain ⟨r, hr, ha⟩ := h y (List.mem_of_getElem? hy)
    split_ifs
    · exact ⟨r, hr, ha.dropped⟩
    · exact ⟨r, hr, ha⟩
  | close ring =>
    intro x hx
    obtain ⟨r, hr, ha⟩ := h x hx
    refine ⟨_, getElem?_modify_ring ring hr, ?_⟩
    split_ifs
    · exact ha.close
    · exact ha

theorem Kept.moves (h : Kept e) (hmoves : Moves e e') : Kept e' := by
  induction hmoves with
  | refl => exact h
  | tail _ hmove ih => exact ih.move hmove

end Exchange

end Hypern.Realtime
