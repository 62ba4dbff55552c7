import Hypern.Lib.Window
import Hypern.Realtime.Broadcast

/-! Deduplication: what a channel remembers is the last ids that it has accepted. -/

namespace Hypern.Realtime

open Lib Python

def accept (name : String) (window : Nat) (accepted : List String) : BroadcastCall → List String
  | .send n _ (some messageId) => if n = name then takeIn window accepted messageId else accepted
  | _ => accepted

/-- The ids that the calls have sent to the channel, less those that were among the last
`window` accepted ones when their turn came. -/
def acceptedIds (name : String) (window : Nat) (calls : List BroadcastCall) : List String :=
  calls.foldl (accept name window) []

/-- The call leaves the channel in place. -/
def BroadcastCall.Keeps (name : String) : BroadcastCall → Prop
  | .remove n => n ≠ name
  | .clear => False
  | _ => True

namespace RealtimeBroadcast

/-- The call returns 0, sends nothing to the exchange and counts as deduplicated only. -/
def Suppresses (s : RealtimeBroadcast) (name message messageId : String) : Prop :=
  ∃ inner, s.channels.lookup name = some inner ∧
    s.send name message (some messageId) = (.ok 0,
      { s with
        channels := s.channels.insert name { inner with totalDeduped := inner.totalDeduped + 1 } })

variable {s t : RealtimeBroadcast} {name : String} {inner : BroadcastInner}

/-! ## What the calls do to the configuration and the memory of a channel -/

def memory (s : RealtimeBroadcast) (name : String) : Option (BroadcastConfig × List String) :=
  (s.channels.lookup name).map fun inner => (inner.config, inner.recentIds)

theorem memory_insert (other : String) (inner : BroadcastInner) (e : Exchange String String) :
    memory ⟨s.channels.insert other inner, e⟩ name =
      if name = other then some (inner.config, inner.recentIds) else s.memory name := by
  unfold memory
  rw [Table.lookup_insert_eq]
  split_ifs <;> rfl

/-- A channel that is changed in its counters only. -/
theorem memory_update {other : String} (h : s.channels.lookup other = some inner)
    {inner' : BroadcastInner} (hconfig : inner'.config = inner.config)
    (hrecent : inner'.recentIds = inner.recentIds) (e : Exchange String String) :
    memory ⟨s.channels.insert other inner', e⟩ name = s.memory name := by
  rw [memory_insert, hconfig, hrecent]
  split_ifs with hname
  · unfold memory
    rw [hname, h]
    rfl
  · rfl

theorem memory_create (h : name ∈ s.channels) (other : String) (config : Option BroadcastConfig) :
    (s.create other config).2.memory name = s.memory name := by
  unfold create
  split_ifs with hmem
  · rfl
  · dsimp only
    cases ringCapacity (config.getD {}).bufferSize with
    | error e => rfl
    | ok capacity =>
      refine (memory_insert ..).trans (if_neg ?_)
      rintro rfl
      exact hmem h

theorem memory_remove {other : String} (h : other ≠ name) :
    (s.remove other).2.memory name = s.memory name := by
  unfold remove memory
  cases s.channels.lookup other with
  | none => rfl
  | some inner =>
    dsimp only
    rw [AList.lookup_erase_ne (Ne.symm h)]

theorem memory_subscribe (other : String) :
    (s.subscribe other).2.memory name = s.memory name := by
  unfold subscribe
  cases hother : s.channels.lookup other with
  | none => rfl
  | some inner => refine memory_update hother ?_ ?_ _ <;> rfl

theorem memory_sendMany (names : List String) (message : String) :
    (s.sendMany names message).2.memory name = s.memory name := by
  have hfold : ∀ (names : List String) (acc : Table String Nat × RealtimeBroadcast),
      (names.foldl (sendOne message) acc).2.memory name = acc.2.memory name := by
    intro names
    induction names with
    | nil => exact fun _ => rfl
    | cons other names ih =>
      intro acc
      rw [List.foldl_cons, ih]
      unfold sendOne
      cases hother : acc.2.channels.lookup other with
      | none => rfl
      | some inner => refine memory_update hother ?_ ?_ _ <;> rfl
  exact hfold names _

/-- What `send` does to the channel, a duplicate or not. -/
theorem lookup_send (h : s.channels.lookup name = some inner) (message : String)
    (messageId : Option String) :
    ∃ inner', (∃ e, (s.send name message messageId).2 = ⟨s.channels.insert name inner', e⟩) ∧
      inner'.config = inner.config ∧
      inner'.recentIds = ((inner.dedup messageId).getD inner).recentIds ∧
      inner'.totalSent = inner.totalSent + (if (inner.dedup messageId).isSome then 1 else 0) ∧
      inner'.totalDeduped = inner.totalDeduped + (if (inner.dedup messageId).isSome then 0 else 1) := by
  unfold send
  rw [h]
  dsimp only
  cases hdedup : inner.dedup messageId with
  | none => exact ⟨_, ⟨_, rfl⟩, rfl, rfl, rfl, rfl⟩
  | some kept =>
    obtain ⟨ids, rfl⟩ := BroadcastInner.dedup_eq_some hdedup
    simp only [Option.isSome_some, if_true, Option.getD_some]
    split_ifs
    · exact ⟨_, ⟨_, rfl⟩, rfl, rfl, rfl, rfl⟩
    · cases inner.config.policy with
      | error => exact ⟨_, ⟨_, rfl⟩, rfl, rfl, rfl, rfl⟩
      | dropOldest => exact ⟨_, ⟨_, rfl⟩, rfl, rfl, rfl, rfl⟩

theorem dedup_eq (henabled : inner.config.dedupEnabled = true) (messageId : String) :
    inner.dedup (some messageId) =
      if messageId ∈ inner.recentIds then none else some (inner.remember messageId) := by
  unfold BroadcastInner.dedup
  rw [henabled]
  rfl

/-- The window slides over the accepted ids. -/
theorem recentIds_dedup (henabled : inner.config.dedupEnabled = true) {accepted : List String}
    (hrecent : inner.recentIds = lastOf inner.config.dedupWindow accepted) (messageId : String) :
    ((inner.dedup (some messageId)).getD inner).recentIds =
      lastOf inner.config.dedupWindow (takeIn inner.config.dedupWindow accepted messageId) := by
  rw [dedup_eq henabled, takeIn, ← hrecent]
  split_ifs with hmem
  · exact hrecent
  · rw [← lastOf_lastOf_append, ← hrecent]
    rfl

variable {config : BroadcastConfig} {accepted : List String}

theorem memory_send (henabled : config.dedupEnabled = true)
    (h : s.memory name = some (config, lastOf config.dedupWindow accepted))
    (other message : String) (messageId : Option String) :
    (s.send other message messageId).2.memory name = some (config, lastOf config.dedupWindow
      (accept name config.dedupWindow accepted (.send other message messageId))) := by
  cases hother : s.channels.lookup other with
  | none =>
    have hsame : (s.send other message messageId).2 = s := by
      unfold send
      rw [hother]
    have hne : other ≠ name := by
      rintro rfl
      rw [memory, hother] at h
      cases h
    rw [hsame, h]
    cases messageId with
    | none => rfl
    | some messageId => rw [accept, if_neg hne]
  | some inner =>
    obtain ⟨inner', ⟨e, hsend⟩, hconfig, hrecent, -⟩ := lookup_send hother message messageId
    rw [hsend, memory_insert, hconfig, hrecent]
    by_cases hname : name = other
    · subst hname
      rw [memory, hother] at h
      obtain ⟨rfl, hwindow⟩ := Prod.mk.inj (Option.some.inj h)
      rw [if_pos rfl]
      cases messageId with
      | none => exact congrArg (fun recent => some (inner.config, recent)) hwindow
      | some messageId => rw [recentIds_dedup henabled hwindow, accept, if_pos rfl]
    · rw [if_neg hname, h]
      cases messageId with
      | none => rfl
      | some messageId => rw [accept, if_neg (Ne.symm hname)]

theorem memory_step (henabled : config.dedupEnabled = true)
    (h : s.memory name = some (config, lastOf config.dedupWindow accepted)) {call : BroadcastCall}
    (hkeeps : call.Keeps name) (hstep : s.step call = some t) :
    t.memory name = some (config, lastOf config.dedupWindow
      (accept name config.dedupWindow accepted call)) := by
  have hmem : name ∈ s.channels := by
    rw [Table.mem_iff_lookup]
    obtain ⟨inner, hinner, -⟩ := Option.map_eq_some_iff.mp h
    exact ⟨inner, hinner⟩
  cases call with
  | create other config => exact Option.some.inj hstep ▸ (memory_create hmem other config).trans h
  | remove other => exact Option.some.inj hstep ▸ (memory_remove hkeeps).trans h
  | subscribe other => exact Option.some.inj hstep ▸ (memory_subscribe other).trans h
  | send other message messageId =>
    exact Option.some.inj hstep ▸ memory_send henabled h other message messageId
  | sendMany names message => exact Option.some.inj hstep ▸ (memory_sendMany names message).trans h
  | clear => exact hkeeps.elim
  | tryRecv i =>
    obtain ⟨r, -, rfl⟩ := Option.map_eq_some_iff.mp hstep
    exact h
  | drain i =>
    obtain ⟨r, -, rfl⟩ := Option.map_eq_some_iff.mp hstep
    exact h
  | drop i => exact Option.some.inj hstep ▸ h

theorem memory_exec (henabled : config.dedupEnabled = true)
    (h : s.memory name = some (config, lastOf config.dedupWindow accepted))
    {calls : List BroadcastCall} (hkeeps : ∀ call ∈ calls, call.Keeps name)
    (hexec : exec step s calls = some t) :
    t.memory name = some (config, lastOf config.dedupWindow
      (calls.foldl (accept name config.dedupWindow) accepted)) := by
  induction calls generalizing s accepted with
  | nil =>
    cases hexec
    exact h
  | cons call calls ih =>
    obtain ⟨u, hu, hexec⟩ := exec_cons_eq_some.mp hexec
    obtain ⟨hcall, hrest⟩ := List.forall_mem_cons.mp hkeeps
    exact ih (memory_step henabled h hcall hu) hrest hexec

theorem nodup_acceptedIds (name : String) (window : Nat) (calls : List BroadcastCall) :
    (lastOf window (acceptedIds name window calls)).Nodup := by
  have hfold : ∀ accepted : List String, (lastOf window accepted).Nodup →
      (lastOf window (calls.foldl (accept name window) accepted)).Nodup := by
    induction calls with
    | nil => exact fun _ h => h
    | cons call calls ih =>
      intro accepted h
      refine ih _ ?_
      unfold accept
      split
      · split_ifs
        · exact nodup_lastOf_takeIn h _
        · exact h
      · exact h
  refine hfold [] ?_
  rw [lastOf_nil]
  exact List.nodup_nil

/-- A send with an id is suppressed exactly if the channel remembers the id, and counts on one
of the two totals. -/
theorem suppresses_iff (henabled : inner.config.dedupEnabled = true)
    (h : s.channels.lookup name = some inner) (message messageId : String) :
    (s.Suppresses name message messageId ↔ messageId ∈ inner.recentIds) ∧
    ∃ inner', (s.send name message (some messageId)).2.channels.lookup name = some inner' ∧
      (inner'.totalSent = inner.totalSent + 1 ∧ inner'.totalDeduped = inner.totalDeduped ∨
        inner'.totalSent = inner.totalSent ∧ inner'.totalDeduped = inner.totalDeduped + 1) := by
  obtain ⟨inner', ⟨e, hsend⟩, -, -, hsent, hdeduped⟩ := lookup_send h message (some messageId)
  have hlookup : (s.send name message (some messageId)).2.channels.lookup name = some inner' := by
    rw [hsend]
    exact AList.lookup_insert _
  rw [dedup_eq henabled] at hsent hdeduped
  by_cases hmem : messageId ∈ inner.recentIds
  · rw [if_pos hmem] at hsent hdeduped
    refine ⟨iff_of_true ⟨inner, h, ?_⟩ hmem, inner', hlookup, .inr ⟨hsent, hdeduped⟩⟩
    unfold send
    rw [h]
    dsimp only
    rw [dedup_eq henabled, if_pos hmem]
  · rw [if_neg hmem] at hsent hdeduped
    refine ⟨iff_of_false ?_ hmem, inner', hlookup, .inl ⟨hsent, hdeduped⟩⟩
    rintro ⟨kept, hkept, hsuppressed⟩
    rw [hsuppressed, AList.lookup_insert] at hlookup
    rw [← Option.some.inj hlookup, Option.some.inj (h.symm.trans hkept)] at hsent
    exact absurd hsent.symm (Nat.succ_ne_self _)

/-- After any calls that leave the channel in place, it remembers the last of the ids that it
has accepted. -/
theorem dedup_window {s' : RealtimeBroadcast} (hcreate : s.create name (some config) = (.ok true, s'))
    (henabled : config.dedupEnabled = true) {calls : List BroadcastCall}
    (hkeeps : ∀ call ∈ calls, call.Keeps name) (hexec : exec step s' calls = some t) :
    ∃ inner, t.channels.lookup name = some inner ∧
      inner.recentIds = lastOf config.dedupWindow (acceptedIds name config.dedupWindow calls) ∧
      inner.recentIds.Nodup ∧ inner.recentIds.length ≤ config.dedupWindow ∧
      ∀ message messageId,
        (t.Suppresses name message messageId ↔ messageId ∈
          lastOf config.dedupWindow (acceptedIds name config.dedupWindow calls)) ∧
        ∃ inner', (t.send name message (some messageId)).2.channels.lookup name = some inner' ∧
          (inner'.totalSent = inner.totalSent + 1 ∧ inner'.totalDeduped = inner.totalDeduped ∨
            inner'.totalSent = inner.totalSent ∧
              inner'.totalDeduped = inner.totalDeduped + 1) := by
  have hnew : s'.memory name = some (config, lastOf config.dedupWindow []) := by
    rw [lastOf_nil]
    unfold create at hcreate
    split_ifs at hcreate
    · cases hcreate
    dsimp only [Option.getD_some] at hcreate
    cases hcapacity : ringCapacity config.bufferSize with
    | error e =>
      rw [hcapacity] at hcreate
      cases hcreate
    | ok capacity =>
      rw [hcapacity] at hcreate
      rw [← (Prod.mk.inj hcreate).2, memory_insert, if_pos rfl]
  have hmemory := memory_exec henabled hnew hkeeps hexec
  obtain ⟨inner, hinner, hpair⟩ := Option.map_eq_some_iff.mp hmemory
  obtain ⟨rfl, hrecent⟩ := Prod.mk.inj hpair
  refine ⟨inner, hinner, hrecent, ?_, ?_, fun message messageId => ?_⟩
  · rw [hrecent]
    exact nodup_acceptedIds ..
  · rw [hrecent, length_lastOf]
    exact Nat.min_le_left ..
  · rw [acceptedIds, ← hrecent]
    exact suppresses_iff henabled hinner message messageId

/-- With a window of one, an id is let through again once another one has come between. -/
def sampleSends : List BroadcastCall :=
  [.send "feed" "hello" (some "a"), .send "feed" "hello" (some "a"), .send "feed" "bye" (some "b")]

theorem sampleSends_window :
    ∃ s' t, new.create "feed" (some { dedupEnabled := true, dedupWindow := 1 }) = (.ok true, s') ∧
      exec step s' sampleSends = some t ∧ t.Suppresses "feed" "bye" "b" ∧
      ¬ t.Suppresses "feed" "hello" "a" := by
  refine ⟨_, _, rfl, rfl, ?_⟩
  have hkeeps : ∀ call ∈ sampleSends, call.Keeps "feed" := by
    unfold sampleSends
    simp [BroadcastCall.Keeps]
  have hcreate : new.create "feed" (some { dedupEnabled := true, dedupWindow := 1 }) =
      (.ok true, _) := rfl
  obtain ⟨inner, -, -, -, -, hsend⟩ := dedup_window hcreate rfl hkeeps rfl
  exact ⟨(hsend "bye" "b").1.mpr (by decide), fun h => absurd ((hsend "hello" "a").1.mp h) (by decide)⟩

end RealtimeBroadcast

end Hypern.Realtime
