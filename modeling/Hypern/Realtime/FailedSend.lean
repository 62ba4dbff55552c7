import Hypern.Realtime.Broadcast

/-! What a `send` that raises leaves behind: the id in the memory of the channel and the message
on its counter, unless the channel does not exist. -/

namespace Hypern.Realtime

open Lib Python

namespace BroadcastInner

/-- The counters of a channel and the ids it remembers. -/
structure Books where
  totalSent : Nat
  totalDropped : Nat
  totalDeduped : Nat
  subscriberCount : Nat
  recentIds : List String
  deriving DecidableEq

def books (inner : BroadcastInner) : Books :=
  ⟨inner.totalSent, inner.totalDropped, inner.totalDeduped, inner.subscriberCount, inner.recentIds⟩

def Duplicate (inner : BroadcastInner) (messageId : Option String) : Prop :=
  inner.config.dedupEnabled = true ∧ ∃ id ∈ inner.recentIds, messageId = some id

variable {inner : BroadcastInner} {messageId : Option String}

theorem dedup_eq_none_iff : inner.dedup messageId = none ↔ inner.Duplicate messageId := by
  unfold dedup Duplicate
  cases messageId with
  | none => simp
  | some id =>
    cases henabled : inner.config.dedupEnabled with
    | false => simp
    | true => by_cases hid : id ∈ inner.recentIds <;> simp [hid]

end BroadcastInner

namespace RealtimeBroadcast

open BroadcastInner

/-- The call takes the message to a receiver, as the next of the channel's ring. -/
def Delivers (s : RealtimeBroadcast) (name message : String) (messageId : Option String) : Prop :=
  ∃ n inner r t, 0 < n ∧ s.channels.lookup name = some inner ∧
    s.exchange.rings[inner.ring]? = some r ∧ s.send name message messageId = (.ok n, t) ∧
    t.exchange.rings[inner.ring]? = some (r.push message)

/-- A subscriber comes to the channel, which is created first if need be. -/
inductive Arrives (name : String) (s : RealtimeBroadcast) : RealtimeBroadcast → Prop
  | subscribe {t : RealtimeBroadcast} (h : s.subscribe name = (.ok (), t)) : Arrives name s t
  | create {config : Option BroadcastConfig} {t u : RealtimeBroadcast}
    (hcreate : s.create name config = (.ok true, t)) (h : t.subscribe name = (.ok (), u)) :
    Arrives name s u

/-- If the call raises, the books of every channel are as before, and the same call delivers the
message once a subscriber has come. -/
def FailsCleanly (s : RealtimeBroadcast) (name message : String) (messageId : Option String) : Prop :=
  ∀ e t, s.send name message messageId = (.error e, t) →
    (∀ other, (t.channels.lookup other).map books = (s.channels.lookup other).map books) ∧
      ∀ u, Arrives name t u → u.Delivers name message messageId

/-- The message gets past the deduplication of a channel that has no receiver and asks for an
error then. -/
def Unheard (s : RealtimeBroadcast) (name : String) (messageId : Option String) : Prop :=
  ∃ inner, s.channels.lookup name = some inner ∧ inner.config.policy = .error ∧
    s.exchange.receivers inner.ring = 0 ∧ ¬ inner.Duplicate messageId

variable {s t u : RealtimeBroadcast} {name : String} {messageId : Option String}

theorem send_of_unknown (h : s.channels.lookup name = none) (message : String) :
    s.send name message messageId = (.error (noSuchBroadcast name), s) := by
  unfold send
  rw [h]

theorem send_of_unheard {inner : BroadcastInner} (h : s.channels.lookup name = some inner)
    (hpolicy : inner.config.policy = .error) (hnobody : s.exchange.receivers inner.ring = 0)
    (hnew : ¬ inner.Duplicate messageId) (message : String) :
    ∃ ids e, s.send name message messageId = (.error (runtimeError "No active subscribers"),
      { channels := s.channels.insert name
          { inner with recentIds := ids, totalSent := inner.totalSent + 1 }
        exchange := e }) := by
  obtain ⟨kept, hdedup⟩ := Option.ne_none_iff_exists'.mp (mt dedup_eq_none_iff.mp hnew)
  obtain ⟨ids, rfl⟩ := dedup_eq_some hdedup
  have hsent : (s.exchange.send inner.ring message).1 = 0 := hnobody
  refine ⟨ids, (s.exchange.send inner.ring message).2, ?_⟩
  unfold send
  simp only [h, hdedup, hsent, hpolicy, ne_eq, not_true_eq_false, if_false]

theorem unheard_of_error {inner : BroadcastInner} (h : s.channels.lookup name = some inner)
    {message : String} {e : PyExc} (hsend : s.send name message messageId = (.error e, t)) :
    s.Unheard name messageId := by
  unfold send at hsend
  rw [h] at hsend
  dsimp only at hsend
  cases hdedup : inner.dedup messageId with
  | none =>
    rw [hdedup] at hsend
    cases hsend
  | some kept =>
    have hnew : ¬ inner.Duplicate messageId := by
      rw [← dedup_eq_none_iff, hdedup]
      exact Option.some_ne_none kept
    obtain ⟨ids, rfl⟩ := dedup_eq_some hdedup
    rw [hdedup] at hsend
    dsimp only at hsend
    split_ifs at hsend with hsome
    · cases hsend
    · have hnobody : s.exchange.receivers inner.ring = 0 := not_not.mp hsome
      cases hpolicy : inner.config.policy with
      | error => exact ⟨inner, h, hpolicy, hnobody, hnew⟩
      | dropOldest =>
        rw [hpolicy] at hsend
        cases hsend

/-! ## The repeated call -/

theorem delivers_of_receiver {inner : BroadcastInner} {r : RingBuffer String}
    (h : s.channels.lookup name = some inner) (hring : s.exchange.rings[inner.ring]? = some r)
    (hsome : s.exchange.receivers inner.ring ≠ 0) (hnew : ¬ inner.Duplicate messageId)
    (message : String) : s.Delivers name message messageId := by
  obtain ⟨kept, hdedup⟩ := Option.ne_none_iff_exists'.mp (mt dedup_eq_none_iff.mp hnew)
  obtain ⟨ids, rfl⟩ := dedup_eq_some hdedup
  have hsent : (s.exchange.send inner.ring message).1 ≠ 0 := hsome
  refine ⟨s.exchange.receivers inner.ring, inner, r,
    ⟨s.channels.insert name { inner with recentIds := ids, totalSent := inner.totalSent + 1 },
      (s.exchange.send inner.ring message).2⟩, Nat.pos_of_ne_zero hsome, h, hring, ?_, ?_⟩
  · unfold send
    simp only [h, hdedup, hsent, ne_eq, not_false_eq_true, if_true]
    rfl
  · have hrings : (s.exchange.send inner.ring message).2.rings =
        s.exchange.rings.modify inner.ring (·.push message) := if_neg hsome
    show (s.exchange.send inner.ring message).2.rings[inner.ring]? = _
    rw [hrings, List.getElem?_modify_eq, hring]
    rfl

theorem delivers_of_created {config : Option BroadcastConfig}
    (hcreate : s.create name config = (.ok true, t)) (hsubscribe : t.subscribe name = (.ok (), u))
    (message : String) : u.Delivers name message messageId := by
  unfold create at hcreate
  split_ifs at hcreate
  · cases hcreate
  dsimp only at hcreate
  cases hcapacity : ringCapacity (config.getD {}).bufferSize with
  | error e =>
    rw [hcapacity] at hcreate
    cases hcreate
  | ok capacity =>
    rw [hcapacity] at hcreate
    obtain rfl := (Prod.mk.inj hcreate).2
    unfold subscribe at hsubscribe
    rw [AList.lookup_insert] at hsubscribe
    obtain rfl := (Prod.mk.inj hsubscribe).2
    -- the new channel is the last one, and the new handle its only receiver
    have hnew : ¬ Duplicate ⟨s.exchange.rings.length, config.getD {}, 0, 0, 0, 0 + 1, []⟩ messageId := by
      rintro ⟨-, id, hid, -⟩
      exact List.not_mem_nil hid
    apply delivers_of_receiver (AList.lookup_insert _)
      (List.getElem?_concat_length (l := s.exchange.rings)) _ hnew
    exact Exchange.receivers_pos (List.mem_append_right _ (List.mem_singleton_self _)) rfl rfl

/-- A failed call is clean exactly if it does not fail for want of a receiver. -/
theorem failsCleanly_iff (s : RealtimeBroadcast) (name message : String)
    (messageId : Option String) :
    s.FailsCleanly name message messageId ↔ ¬ s.Unheard name messageId := by
  constructor
  · rintro hclean ⟨inner, h, hpolicy, hnobody, hnew⟩
    obtain ⟨ids, e, hsend⟩ := send_of_unheard h hpolicy hnobody hnew message
    have hbooks := (hclean _ _ hsend).1 name
    rw [AList.lookup_insert, h] at hbooks
    have hsent : inner.totalSent + 1 = inner.totalSent :=
      congrArg Books.totalSent (Option.some.inj hbooks)
    exact Nat.succ_ne_self _ hsent
  · intro hheard e t hsend
    cases h : s.channels.lookup name with
    | some inner => exact absurd (unheard_of_error h hsend) hheard
    | none =>
      rw [send_of_unknown h] at hsend
      obtain rfl := (Prod.mk.inj hsend).2
      refine ⟨fun other => rfl, fun u harrives => ?_⟩
      cases harrives with
      | subscribe hsubscribe =>
        unfold subscribe at hsubscribe
        rw [h] at hsubscribe
        cases hsubscribe
      | create hcreate hsubscribe => exact delivers_of_created hcreate hsubscribe message

/-- The first attempt raises and the id is remembered, so the second one is taken for a duplicate. -/
theorem failed_send_swallows_retry :
    ¬ ∀ (s : RealtimeBroadcast) (name message : String) (messageId : Option String),
      s.FailsCleanly name message messageId := by
  intro h
  let s := (new.create "critical" (some { policy := .error, dedupEnabled := true })).2
  let t := (s.send "critical" "event" (some "evt-1")).2
  let u := (t.subscribe "critical").2
  have hfailed : s.send "critical" "event" (some "evt-1") =
      (.error (runtimeError "No active subscribers"), t) := rfl
  have harrives : Arrives "critical" t u := .subscribe rfl
  obtain ⟨n, inner, r, v, hpos, -, -, hsend, -⟩ := (h _ _ _ _ _ _ hfailed).2 u harrives
  have hretry : (u.send "critical" "event" (some "evt-1")).1 = .ok 0 := rfl
  rw [hsend] at hretry
  exact Nat.ne_of_gt hpos (Except.ok.inj hretry)

end RealtimeBroadcast

end Hypern.Realtime
