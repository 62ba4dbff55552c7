import Hypern.Realtime.Broadcast

/-! `send_many` against one `send` for each of its names. The two differ in what they count for a
channel that nobody listens to. -/

namespace Hypern.Realtime

open Lib Python

namespace Exchange

variable {K M : Type*}

theorem receivers_send (e : Exchange K M) (ring : Nat) (msg : M) (other : Nat) :
    (e.send ring msg).2.receivers other = e.receivers other := by
  unfold receivers send
  rw [List.countP_map]
  apply List.countP_congr
  intro h _
  have hsame : (h.published ring msg).live = h.live ∧ (h.published ring msg).ring = h.ring := by
    unfold Handle.published
    split_ifs <;> exact ⟨rfl, rfl⟩
  simp only [Function.comp_apply, hsame.1, hsame.2]

end Exchange

namespace RealtimeBroadcast

/-- One call of `send` for a name, if there is such a channel, with the count it returns. -/
def sendTo (message : String) (acc : Table String Nat × RealtimeBroadcast) (name : String) :
    Table String Nat × RealtimeBroadcast :=
  if name ∈ acc.2.channels then
    match acc.2.send name message none with
    | (.ok n, t) => (acc.1.insert name n, t)
    | (.error _, t) => (acc.1, t)
  else acc

/-- The calls of `send` that `send_many` stands for, one after another. -/
def sendEach (s : RealtimeBroadcast) (names : List String) (message : String) :
    Table String Nat × RealtimeBroadcast :=
  names.foldl (sendTo message) (∅, s)

/-- Both ways lead to the same channels, the same queued messages and the same counts. -/
structure BatchAgrees (s : RealtimeBroadcast) (names : List String) (message : String) : Prop where
  channels : ∀ name, (s.sendMany names message).2.channels.lookup name =
    (s.sendEach names message).2.channels.lookup name
  exchange : (s.sendMany names message).2.exchange = (s.sendEach names message).2.exchange
  results : ∀ name, (s.sendMany names message).1.lookup name =
    (s.sendEach names message).1.lookup name

/-- The named channels that exist drop what they cannot deliver. -/
def Dropping (s : RealtimeBroadcast) (names : List String) : Prop :=
  ∀ name ∈ names, ∀ inner ∈ s.channels.lookup name, inner.config.policy = .dropOldest

instance (s : RealtimeBroadcast) (names : List String) : Decidable (s.Dropping names) :=
  inferInstanceAs (Decidable (∀ name ∈ names, ∀ inner ∈ s.channels.lookup name, _ = _))

/-- Somebody listens to each of the named channels that exist. -/
def Heard (s : RealtimeBroadcast) (names : List String) : Prop :=
  ∀ name ∈ names, ∀ inner ∈ s.channels.lookup name, s.exchange.receivers inner.ring ≠ 0

instance (s : RealtimeBroadcast) (names : List String) : Decidable (s.Heard names) :=
  inferInstanceAs (Decidable (∀ name ∈ names, ∀ inner ∈ s.channels.lookup name, _ ≠ _))

/-! ## One name -/

/-- What `send` counts as dropped if it is called once for the name. -/
def dropsOne (s : RealtimeBroadcast) (name : String) : Nat :=
  match s.channels.lookup name with
  | some inner => if s.exchange.receivers inner.ring = 0 then 1 else 0
  | none => 0

/-- The single path is where the batch path is, except that it has counted `dropped name` more
messages as dropped on each channel. -/
structure Ahead (dropped : String → Nat) (batch single : Table String Nat × RealtimeBroadcast) :
    Prop where
  results : single.1 = batch.1
  exchange : single.2.exchange = batch.2.exchange
  channels : ∀ name, single.2.channels.lookup name = (batch.2.channels.lookup name).map
    fun inner => { inner with totalDropped := inner.totalDropped + dropped name }

variable {s t : RealtimeBroadcast} {name message : String} {inner : BroadcastInner}

theorem send_dropping (h : s.channels.lookup name = some inner)
    (hpolicy : inner.config.policy = .dropOldest) (message : String) :
    s.send name message none = (.ok (s.exchange.receivers inner.ring),
      { channels := s.channels.insert name { inner with
          totalSent := inner.totalSent + 1
          totalDropped := inner.totalDropped + s.dropsOne name }
        exchange := (s.exchange.send inner.ring message).2 }) := by
  have hcount : (s.exchange.send inner.ring message).1 = s.exchange.receivers inner.ring := rfl
  unfold send dropsOne
  simp only [h, BroadcastInner.dedup, hcount]
  by_cases hnobody : s.exchange.receivers inner.ring = 0
  · simp only [hnobody, hpolicy, ne_eq, not_true_eq_false, if_false, if_true]
  · simp only [hnobody, ne_eq, not_false_eq_true, if_true, if_false, Nat.add_zero]

theorem sendOne_some {acc : Table String Nat × RealtimeBroadcast}
    (h : acc.2.channels.lookup name = some inner) :
    sendOne message acc name = (acc.1.insert name (acc.2.exchange.receivers inner.ring),
      { channels := acc.2.channels.insert name { inner with totalSent := inner.totalSent + 1 }
        exchange := (acc.2.exchange.send inner.ring message).2 }) := by
  unfold sendOne
  rw [h]
  rfl

theorem sendTo_some {acc : Table String Nat × RealtimeBroadcast}
    (h : acc.2.channels.lookup name = some inner) (hpolicy : inner.config.policy = .dropOldest) :
    sendTo message acc name = (acc.1.insert name (acc.2.exchange.receivers inner.ring),
      { channels := acc.2.channels.insert name { inner with
          totalSent := inner.totalSent + 1
          totalDropped := inner.totalDropped + acc.2.dropsOne name }
        exchange := (acc.2.exchange.send inner.ring message).2 }) := by
  have hmem : name ∈ acc.2.channels := Table.mem_iff_lookup.mpr ⟨inner, h⟩
  unfold sendTo
  rw [if_pos hmem, send_dropping h hpolicy]

/-! ## All names -/

/-- What stays the same about the channels while messages are sent: which there are, where they
send to, and whether somebody listens there. -/
structure Steady (s t : RealtimeBroadcast) : Prop where
  receivers : ∀ ring, t.exchange.receivers ring = s.exchange.receivers ring
  channels : ∀ name, (t.channels.lookup name).map (fun inner => (inner.ring, inner.config)) =
    (s.channels.lookup name).map fun inner => (inner.ring, inner.config)

theorem Steady.dropsOne (h : s.Steady t) (name : String) : t.dropsOne name = s.dropsOne name := by
  have hchannel := h.channels name
  unfold RealtimeBroadcast.dropsOne
  cases hs : s.channels.lookup name with
  | none =>
    rw [hs, Option.map_none, Option.map_eq_none_iff] at hchannel
    rw [hchannel]
  | some inner =>
    rw [hs] at hchannel
    obtain ⟨inner', ht, hsame⟩ := Option.map_eq_some_iff.mp hchannel
    have hring : inner'.ring = inner.ring := congrArg Prod.fst hsame
    simp only [ht, hring, h.receivers]

theorem Steady.dropping (h : s.Steady t) {names : List String} (hs : s.Dropping names) :
    t.Dropping names := by
  intro name hname inner' ht
  have hchannel := h.channels name
  rw [ht] at hchannel
  obtain ⟨inner, hinner, hsame⟩ := Option.map_eq_some_iff.mp hchannel.symm
  have hconfig : inner.config = inner'.config := congrArg Prod.snd hsame
  rw [← hconfig]
  exact hs name hname inner hinner

theorem steady_sendOne (message : String) (acc : Table String Nat × RealtimeBroadcast)
    (name : String) : acc.2.Steady (sendOne message acc name).2 := by
  cases h : acc.2.channels.lookup name with
  | none =>
    have hsame : sendOne message acc name = acc := by
      unfold sendOne
      rw [h]
    rw [hsame]
    exact ⟨fun _ => rfl, fun _ => rfl⟩
  | some inner =>
    rw [sendOne_some h]
    refine ⟨fun ring => Exchange.receivers_send _ _ _ ring, fun other => ?_⟩
    dsimp only
    rw [Table.lookup_insert_eq]
    split_ifs with hother
    · rw [hother, h]
      rfl
    · rfl

theorem Steady.trans {u : RealtimeBroadcast} (h : s.Steady t) (h' : t.Steady u) : s.Steady u :=
  ⟨fun ring => (h'.receivers ring).trans (h.receivers ring),
    fun name => (h'.channels name).trans (h.channels name)⟩

theorem steady_foldl (message : String) (names : List String)
    (acc : Table String Nat × RealtimeBroadcast) :
    acc.2.Steady (names.foldl (sendOne message) acc).2 := by
  induction names generalizing acc with
  | nil => exact ⟨fun _ => rfl, fun _ => rfl⟩
  | cons name names ih => exact (steady_sendOne message acc name).trans (ih _)

/-- One more name on either path. -/
theorem Ahead.step {dropped : String → Nat} {batch single : Table String Nat × RealtimeBroadcast}
    (h : Ahead dropped batch single) (hpolicy : batch.2.Dropping [name]) :
    Ahead (fun other => dropped other + if other = name then batch.2.dropsOne name else 0)
      (sendOne message batch name) (sendTo message single name) := by
  have hsingle := h.channels name
  cases hbatch : batch.2.channels.lookup name with
  | none =>
    rw [hbatch, Option.map_none] at hsingle
    have hmem : name ∉ single.2.channels := AList.lookup_eq_none.mp hsingle
    have hone : sendOne message batch name = batch := by
      unfold sendOne
      rw [hbatch]
    have hto : sendTo message single name = single := if_neg hmem
    have hnone : batch.2.dropsOne name = 0 := by
      unfold dropsOne
      rw [hbatch]
    rw [hone, hto]
    refine ⟨h.results, h.exchange, fun other => ?_⟩
    rw [h.channels other, hnone, ite_self, Nat.add_zero]
  | some inner =>
    rw [hbatch, Option.map_some] at hsingle
    have hconfig : inner.config.policy = .dropOldest :=
      hpolicy name (List.mem_singleton_self name) inner hbatch
    have hdrops : single.2.dropsOne name = batch.2.dropsOne name := by
      unfold dropsOne
      simp only [hsingle, hbatch, h.exchange]
    rw [sendOne_some hbatch, sendTo_some hsingle hconfig, hdrops, h.results, h.exchange]
    refine ⟨rfl, rfl, fun other => ?_⟩
    dsimp only
    rw [Table.lookup_insert_eq, Table.lookup_insert_eq]
    split_ifs with hother
    · subst hother
      simp only [Option.map_some, Option.some.injEq, BroadcastInner.mk.injEq, true_and, and_true]
      exact Nat.add_assoc ..
    · exact h.channels other

theorem Ahead.run {dropped : String → Nat} {batch single : Table String Nat × RealtimeBroadcast}
    (h : Ahead dropped batch single) {names : List String} (hpolicy : batch.2.Dropping names) :
    Ahead (fun name => dropped name + names.count name * batch.2.dropsOne name)
      (names.foldl (sendOne message) batch) (names.foldl (sendTo message) single) := by
  induction names generalizing dropped batch single with
  | nil =>
    simp only [List.count_nil, Nat.zero_mul, Nat.add_zero]
    exact h
  | cons first rest ih =>
    obtain ⟨hfirst, hrest⟩ := List.forall_mem_cons.mp hpolicy
    have hsteady := steady_sendOne message batch first
    have hnext := ih (h.step (List.forall_mem_singleton.mpr hfirst)) (hsteady.dropping hrest)
    refine ⟨hnext.results, hnext.exchange, fun name => ?_⟩
    have hcount : dropped name + (if name = first then batch.2.dropsOne first else 0) +
        rest.count name * batch.2.dropsOne name =
          dropped name + (first :: rest).count name * batch.2.dropsOne name := by
      rw [List.count_cons]
      by_cases hname : name = first
      · subst hname
        simp only [if_true, beq_self_eq_true]
        rw [Nat.add_mul, Nat.one_mul]
        omega
      · have hne : (first == name) = false := beq_false_of_ne (Ne.symm hname)
        simp only [hname, hne, if_false, Bool.false_eq_true, Nat.add_zero]
    rw [List.foldl_cons, List.foldl_cons, hnext.channels name, hsteady.dropsOne, hcount]

theorem dropsOne_eq_zero_iff : s.dropsOne name = 0 ↔
    ∀ inner ∈ s.channels.lookup name, s.exchange.receivers inner.ring ≠ 0 := by
  unfold dropsOne
  cases s.channels.lookup name with
  | none => simp
  | some inner => by_cases h : s.exchange.receivers inner.ring = 0 <;> simp [h]

/-- The batch path is right exactly if it has nothing to drop. -/
theorem batchAgrees_iff (s : RealtimeBroadcast) (names : List String) (message : String)
    (hpolicy : s.Dropping names) : s.BatchAgrees names message ↔ s.Heard names := by
  have hheard : s.Heard names ↔ ∀ name ∈ names, s.dropsOne name = 0 :=
    forall₂_congr fun name _ => dropsOne_eq_zero_iff.symm
  have hstart : Ahead (fun _ => 0) (∅, s) (∅, s) := by
    refine ⟨rfl, rfl, fun name => ?_⟩
    cases s.channels.lookup name <;> rfl
  have hahead : Ahead _ (s.sendMany names message) (s.sendEach names message) :=
    hstart.run hpolicy
  have hsteady : s.Steady (s.sendMany names message).2 := steady_foldl message names (∅, s)
  rw [hheard]
  constructor
  · intro hagrees name hname
    cases hfinal : (s.sendMany names message).2.channels.lookup name with
    | none =>
      have hgone : (s.sendMany names message).2.dropsOne name = 0 := by
        unfold dropsOne
        rw [hfinal]
      rw [← hsteady.dropsOne, hgone]
    | some final =>
      have hchannel := hahead.channels name
      rw [← hagrees.channels name, hfinal, Option.map_some] at hchannel
      have hdropped : final.totalDropped = final.totalDropped +
          (0 + names.count name * s.dropsOne name) :=
        congrArg BroadcastInner.totalDropped (Option.some.inj hchannel)
      have hzero : names.count name * s.dropsOne name = 0 := by omega
      have hcount : names.count name ≠ 0 := Nat.ne_of_gt (List.count_pos_iff.mpr hname)
      exact (Nat.mul_eq_zero.mp hzero).resolve_left hcount
  · intro hdrops
    have hnothing : ∀ name, names.count name * s.dropsOne name = 0 := by
      intro name
      by_cases hname : name ∈ names
      · rw [hdrops name hname, Nat.mul_zero]
      · rw [List.count_eq_zero_of_not_mem hname, Nat.zero_mul]
    refine ⟨fun name => ?_, hahead.exchange.symm, fun name => by rw [hahead.results]⟩
    rw [hahead.channels name, hnothing name]
    cases (s.sendMany names message).2.channels.lookup name <;> rfl

/-- Two channels, of which only the first has a subscriber. -/
def oneListener : RealtimeBroadcast :=
  (((new.create "a" none).2.create "b" none).2.subscribe "a").2

/-- Names may come twice, and names of no channel are passed over. -/
theorem heard_batch_agrees :
    oneListener.Dropping ["a", "c", "a"] ∧ oneListener.BatchAgrees ["a", "c", "a"] "hello" := by
  have hpolicy : oneListener.Dropping ["a", "c", "a"] := by decide
  have hheard : oneListener.Heard ["a", "c", "a"] := by decide
  exact ⟨hpolicy, (batchAgrees_iff oneListener ["a", "c", "a"] "hello" hpolicy).mpr hheard⟩

theorem unheard_batch_disagrees :
    ¬ ∀ (s : RealtimeBroadcast) (names : List String) (message : String), s.Dropping names →
      s.BatchAgrees names message := by
  intro h
  have hpolicy : oneListener.Dropping ["a", "b"] := by decide
  have hchannel := (h oneListener ["a", "b"] "hello" hpolicy).channels "b"
  have hdropped := congrArg (Option.map BroadcastInner.totalDropped) hchannel
  have hbatch : ((oneListener.sendMany ["a", "b"] "hello").2.channels.lookup "b").map
      BroadcastInner.totalDropped = some 0 := rfl
  have hsingle : ((oneListener.sendEach ["a", "b"] "hello").2.channels.lookup "b").map
      BroadcastInner.totalDropped = some 1 := rfl
  rw [hbatch, hsingle] at hdropped
  exact absurd (Option.some.inj hdropped) (by decide)

end RealtimeBroadcast

end Hypern.Realtime
