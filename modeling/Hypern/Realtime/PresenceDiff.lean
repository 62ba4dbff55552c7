import Hypern.Realtime.PresenceIndex

/-! What a consumer of the diffs knows. Between two flushes the pending lists record joins and
leaves, so for each client membership and leaves balance the former membership and joins, up
to the changes that the lists do not record: a client that is tracked again while it is present,
and everything that `clear` drops. -/

namespace Hypern.Realtime

open Lib

namespace ChannelPresence

def memberCount (cp : ChannelPresence) (client : String) : Nat :=
  if client ∈ cp.members then 1 else 0

def joinCount (cp : ChannelPresence) (client : String) : Nat :=
  (cp.pendingJoins.map PresenceInfo.clientId).count client

/-- Membership and pending leaves together. -/
def tally (cp : ChannelPresence) (client : String) : Nat :=
  cp.memberCount client + cp.pendingLeaves.count client

theorem memberCount_join (cp : ChannelPresence) (client client' : String) (info : PresenceInfo) :
    (cp.join client info).memberCount client' =
      if client' = client then 1 else cp.memberCount client' := by
  have hmem : client' ∈ (cp.join client info).members ↔ client' = client ∨ client' ∈ cp.members :=
    AList.mem_insert _
  unfold memberCount
  rw [if_congr hmem rfl rfl, ite_or]

theorem joinCount_join (cp : ChannelPresence) (client client' : String) (info : PresenceInfo) :
    (cp.join client info).joinCount client' =
      cp.joinCount client' + if client' = info.clientId then 1 else 0 := by
  change ((cp.pendingJoins ++ [info]).map PresenceInfo.clientId).count client' = _
  rw [List.map_append, List.count_append, List.map_singleton, List.count_singleton]
  exact congrArg _ (if_congr (beq_iff_eq.trans eq_comm) rfl rfl)

theorem tally_join (cp : ChannelPresence) (client : String) (info : PresenceInfo) :
    (cp.join client info).tally client + cp.memberCount client = cp.tally client + 1 := by
  have hleaves : (cp.join client info).pendingLeaves = cp.pendingLeaves := rfl
  unfold tally
  rw [memberCount_join, if_pos rfl, hleaves]
  omega

theorem memberCount_leave {cp : ChannelPresence} (client client' : String) :
    (cp.leave client).memberCount client' = if client' = client then 0 else cp.memberCount client' := by
  have hmem : client' ∈ (cp.leave client).members ↔ client' ≠ client ∧ client' ∈ cp.members :=
    AList.mem_erase
  unfold memberCount
  rw [if_congr hmem rfl rfl]
  split_ifs with h hc <;> simp_all

/-- A member that leaves is counted in the other place. -/
theorem tally_leave {cp : ChannelPresence} {client : String} (h : client ∈ cp.members)
    (client' : String) : (cp.leave client).tally client' = cp.tally client' := by
  have hleaves : (cp.leave client).pendingLeaves.count client' =
      cp.pendingLeaves.count client' + if client' = client then 1 else 0 := by
    change (cp.pendingLeaves ++ [client]).count client' = _
    rw [List.count_append, List.count_singleton]
    exact congrArg _ (if_congr (beq_iff_eq.trans eq_comm) rfl rfl)
  unfold tally
  rw [hleaves, memberCount_leave]
  by_cases hc : client' = client
  · subst hc
    rw [if_pos rfl, if_pos rfl, memberCount, if_pos h]
    omega
  · rw [if_neg hc, if_neg hc, Nat.add_zero]

theorem tally_leaveIfPresent (cp : ChannelPresence) (client client' : String) :
    (cp.leaveIfPresent client).tally client' = cp.tally client' := by
  unfold leaveIfPresent
  split_ifs with h
  · exact tally_leave h client'
  · rfl

theorem joinCount_leaveIfPresent (cp : ChannelPresence) (client client' : String) :
    (cp.leaveIfPresent client).joinCount client' = cp.joinCount client' := by
  unfold leaveIfPresent
  split_ifs <;> rfl

theorem tally_leaveAll {clients : List String} (hnodup : clients.Nodup) {cp : ChannelPresence}
    (h : ∀ client ∈ clients, client ∈ cp.members) (client' : String) :
    (clients.foldl leave cp).tally client' = cp.tally client' := by
  induction clients generalizing cp with
  | nil => rfl
  | cons client clients ih =>
    rw [List.nodup_cons] at hnodup
    rw [List.forall_mem_cons] at h
    rw [List.foldl_cons, ih hnodup.2 ?_, tally_leave h.1]
    intro c hc
    refine AList.mem_erase.mpr ⟨?_, h.2 c hc⟩
    rintro rfl
    exact hnodup.1 hc

end ChannelPresence

namespace PresenceTracker

/-! ## Unrecorded changes -/

def unrecordedStep (start s : PresenceTracker) (channel client : String) (n : Nat) :
    PresenceCall → Nat
  | .track channel' client' _ _ =>
    if channel' = channel ∧ client' = client ∧ s.Member channel client then n + 1 else n
  | .clear => if start.Member channel client then 1 else 0
  | _ => n

/-- The changes of a run from `start` that the pending lists do not record, after `n` of them
in the part that led to `s`: joins of a client that is present already, since the last `clear`,
and the membership that a `clear` ended. -/
def unrecordedFrom (start : PresenceTracker) (channel client : String) :
    PresenceTracker → Nat → List PresenceCall → Nat
  | _, n, [] => n
  | s, n, call :: calls =>
    match s.step call with
    | some t => unrecordedFrom start channel client t (unrecordedStep start s channel client n call) calls
    | none => n

def unrecorded (start : PresenceTracker) (channel client : String) (calls : List PresenceCall) : Nat :=
  unrecordedFrom start channel client start 0 calls

/-- The calls between a flush of the channel and the next. -/
structure Window (channel : String) (s : PresenceTracker) (calls : List PresenceCall)
    (s' : PresenceTracker) : Prop where
  noFlush : .flushDiff channel ∉ calls
  exec : exec step (s.flushDiff channel).2 calls = some s'

/-! ## The balance -/

section Balance

variable {start s t : PresenceTracker} {channel client : String} {n : Nat}

def Balanced (start s : PresenceTracker) (channel client : String) (n : Nat) : Prop :=
  (s.presence channel).tally client + n =
    (start.presence channel).memberCount client + (s.presence channel).joinCount client

theorem Balanced.congr (h : Balanced start s channel client n)
    (htally : (t.presence channel).tally client = (s.presence channel).tally client)
    (hjoin : (t.presence channel).joinCount client = (s.presence channel).joinCount client) :
    Balanced start t channel client n := by
  unfold Balanced
  rw [htally, hjoin]
  exact h

theorem Balanced.track (h : Balanced start s channel client n) (channel' client' : String)
    (metadata : Option Metadata) (now : ℚ) :
    Balanced start (s.track channel' client' metadata now).2 channel client
      (unrecordedStep start s channel client n (.track channel' client' metadata now)) := by
  have hn : unrecordedStep start s channel client n (.track channel' client' metadata now) =
      if channel' = channel ∧ client' = client ∧ s.Member channel client then n + 1 else n := rfl
  unfold Balanced at h ⊢
  rw [hn, presence_track]
  by_cases hchannel : channel = channel'
  · subst hchannel
    rw [if_pos rfl, ChannelPresence.joinCount_join]
    change _ = _ + (_ + if client = client' then 1 else 0)
    by_cases hclient : client = client'
    · subst hclient
      have htally := (s.presence channel).tally_join client (.new client channel metadata now)
      have hcount : (s.presence channel).memberCount client = if s.Member channel client then 1 else 0 :=
        if_congr member_iff.symm rfl rfl
      rw [if_pos rfl, if_congr (and_iff_right rfl) rfl rfl, if_congr (and_iff_right rfl) rfl rfl]
      split_ifs at hcount ⊢ <;> omega
    · rw [if_neg hclient, if_neg fun hc => hclient hc.2.1.symm, ChannelPresence.tally,
        ChannelPresence.memberCount_join, if_neg hclient]
      exact h
  · rw [if_neg hchannel, if_neg fun hc => hchannel hc.1.symm]
    exact h

/-- The channels that a client leaves one after the other keep their balance. -/
theorem tally_leaveEach (left : List String) (t : Table String ChannelPresence)
    (channel client client' : String) :
    (presenceIn (left.foldl (fun t channel => t.modify channel (·.leaveIfPresent client')) t)
        channel).tally client = (presenceIn t channel).tally client ∧
      (presenceIn (left.foldl (fun t channel => t.modify channel (·.leaveIfPresent client')) t)
        channel).joinCount client = (presenceIn t channel).joinCount client := by
  induction left generalizing t with
  | nil => exact ⟨rfl, rfl⟩
  | cons ch left ih =>
    obtain ⟨htally, hjoin⟩ := ih (t.modify ch (·.leaveIfPresent client'))
    rw [List.foldl_cons, htally, hjoin, presenceIn_leave]
    split_ifs with h
    · rw [h]
      exact ⟨ChannelPresence.tally_leaveIfPresent .., ChannelPresence.joinCount_leaveIfPresent ..⟩
    · exact ⟨rfl, rfl⟩

theorem Balanced.untrackAll (h : Balanced start s channel client n) (client' : String) :
    Balanced start (s.untrackAll client').2 channel client n := by
  unfold PresenceTracker.untrackAll
  cases s.channelsByClient.lookup client' with
  | none => exact h
  | some left =>
    obtain ⟨htally, hjoin⟩ := tally_leaveEach left s.channels channel client client'
    exact h.congr htally hjoin

theorem Balanced.untrack (h : Balanced start s channel client n) (channel' client' : String) :
    Balanced start (s.untrack channel' client').2 channel client n := by
  refine h.congr ?_ ?_
  · rw [presence_untrack]
    split_ifs with hc
    · rw [hc]
      exact ChannelPresence.tally_leaveIfPresent ..
    · rfl
  · rw [presence_untrack]
    split_ifs with hc
    · rw [hc]
      exact ChannelPresence.joinCount_leaveIfPresent ..
    · rfl

theorem Balanced.touchWith (h : Balanced start s channel client n) (channel' client' : String)
    (f : PresenceInfo → PresenceInfo) :
    Balanced start (s.touchWith channel' client' f).2 channel client n := by
  have hmember : ∀ cp : ChannelPresence, (cp.touch client' f).memberCount client =
      cp.memberCount client := by
    intro cp
    refine if_congr ?_ rfl rfl
    unfold ChannelPresence.touch
    rw [← AList.lookup_isSome, ← AList.lookup_isSome, Table.lookup_modify_isSome]
  refine h.congr ?_ ?_
  · rw [presence_touchWith]
    split_ifs with hc
    · rw [hc, ChannelPresence.tally, hmember]
      rfl
    · rfl
  · rw [presence_touchWith]
    split_ifs with hc
    · rw [hc]
      rfl
    · rfl

theorem Balanced.evictStale (h : Balanced start s channel client n) {timeout now : ℚ}
    {visits : List (String × List String)} (hvisits : s.Visits visits) :
    Balanced start (s.evictStale timeout now visits).2 channel client n := by
  obtain ⟨stale, hnodup, hstale, -, hpresence⟩ := presence_evictStale hvisits timeout now channel
  have hmembers : ∀ c ∈ stale, c ∈ (s.presence channel).members := by
    intro c hc
    obtain ⟨info, hinfo, -⟩ := (hstale c).mp hc
    rw [get_eq] at hinfo
    exact Table.mem_iff_lookup.mpr ⟨info, hinfo⟩
  refine h.congr ?_ ?_
  · rw [hpresence, ChannelPresence.tally_leaveAll hnodup hmembers]
  · rw [hpresence, ChannelPresence.joinCount, ChannelPresence.pendingJoins_leaveAll]
    rfl

/-- A call that is not a flush of the channel keeps the balance. -/
theorem Balanced.step (h : Balanced start s channel client n) {call : PresenceCall}
    (hflush : call ≠ .flushDiff channel) (hstep : s.step call = some t) :
    Balanced start t channel client (unrecordedStep start s channel client n call) := by
  cases call with
  | track channel' client' metadata now =>
    cases hstep
    exact h.track channel' client' metadata now
  | untrack channel' client' =>
    cases hstep
    exact h.untrack channel' client'
  | untrackAll client' =>
    cases hstep
    exact h.untrackAll client'
  | update channel' client' metadata now =>
    cases hstep
    exact h.touchWith channel' client' _
  | touch channel' client' now =>
    cases hstep
    exact h.touchWith channel' client' _
  | flushDiff channel' =>
    cases hstep
    have hne : channel ≠ channel' := fun heq => hflush (heq ▸ rfl)
    have hkeep : (s.flushDiff channel').2.presence channel = s.presence channel := by
      rw [presence_flushDiff, if_neg hne]
    exact h.congr (by rw [hkeep]) (by rw [hkeep])
  | evictStale timeout now visits =>
    obtain ⟨hvisits, rfl⟩ := step_evictStale hstep
    exact h.evictStale hvisits
  | clear =>
    cases hstep
    -- nothing is left of the channel, so all there was is unrecorded
    change 0 + (if start.Member channel client then 1 else 0) =
      (if client ∈ (start.presence channel).members then 1 else 0) + 0
    rw [Nat.zero_add, Nat.add_zero]
    exact if_congr member_iff rfl rfl

theorem Balanced.run {calls : List PresenceCall} (h : Balanced start s channel client n)
    (hflush : .flushDiff channel ∉ calls) (hexec : exec PresenceTracker.step s calls = some t) :
    Balanced start t channel client (unrecordedFrom start channel client s n calls) := by
  induction calls generalizing s n with
  | nil =>
    cases hexec
    exact h
  | cons call calls ih =>
    rw [List.mem_cons, not_or] at hflush
    obtain ⟨u, hstep, hexec⟩ := exec_cons_eq_some.mp hexec
    unfold unrecordedFrom
    rw [hstep]
    exact ih (h.step (Ne.symm hflush.1) hstep) hflush.2 hexec

theorem Window.balanced {s s' : PresenceTracker} {calls : List PresenceCall}
    (h : Window channel s calls s') (client : String) :
    Balanced (s.flushDiff channel).2 s' channel client
      (unrecorded (s.flushDiff channel).2 channel client calls) := by
  refine Balanced.run ?_ h.noFlush h.exec
  unfold Balanced
  rw [presence_flushDiff, if_pos rfl]
  rfl

/-- The diff of the closing flush accounts for the membership, but for what is unrecorded. -/
theorem Window.account {s s' : PresenceTracker} {calls : List PresenceCall}
    (h : Window channel s calls s') (client : String) :
    (if s'.Member channel client then 1 else 0) + (s'.flushDiff channel).1.leaves.count client +
        unrecorded (s.flushDiff channel).2 channel client calls =
      (if s.Member channel client then 1 else 0) +
        ((s'.flushDiff channel).1.joins.map PresenceInfo.clientId).count client := by
  have hbalance := h.balanced client
  unfold Balanced ChannelPresence.tally at hbalance
  rw [presence_flushDiff, if_pos rfl] at hbalance
  rw [flushDiff_fst, if_congr member_iff rfl rfl, if_congr (member_iff (s := s)) rfl rfl]
  exact hbalance

end Balance

/-- Two windows from the same membership whose diffs are the same lead to the same membership
exactly when, for every client, they leave the same number of changes unrecorded. -/
theorem diffs_sufficient_iff {s t s' t' : PresenceTracker} {channel : String}
    {calls calls' : List PresenceCall} (hs : Window channel s calls s')
    (ht : Window channel t calls' t')
    (hstart : ∀ client, s.Member channel client ↔ t.Member channel client)
    (hjoins : (s'.flushDiff channel).1.joins.map PresenceInfo.clientId =
      (t'.flushDiff channel).1.joins.map PresenceInfo.clientId)
    (hleaves : (s'.flushDiff channel).1.leaves = (t'.flushDiff channel).1.leaves) :
    (∀ client, (s'.flushDiff channel).2.Member channel client ↔
        (t'.flushDiff channel).2.Member channel client) ↔
      ∀ client, unrecorded (s.flushDiff channel).2 channel client calls =
        unrecorded (t.flushDiff channel).2 channel client calls' := by
  refine forall_congr' fun client => ?_
  have hs := hs.account client
  have ht := ht.account client
  rw [hjoins, hleaves, if_congr (hstart client) rfl rfl] at hs
  rw [member_flushDiff, member_flushDiff]
  by_cases hms : s'.Member channel client <;> by_cases hmt : t'.Member channel client
  · rw [if_pos hms] at hs
    rw [if_pos hmt] at ht
    exact iff_of_true (iff_of_true hms hmt) (by omega)
  · rw [if_pos hms] at hs
    rw [if_neg hmt] at ht
    exact iff_of_false (fun h => hmt (h.mp hms)) (by omega)
  · rw [if_neg hms] at hs
    rw [if_pos hmt] at ht
    exact iff_of_false (fun h => hms (h.mpr hmt)) (by omega)
  · rw [if_neg hms] at hs
    rw [if_neg hmt] at ht
    exact iff_of_true (iff_of_false hms hmt) (by omega)

/-- Where nobody is tracked twice and nothing is cleared, all is recorded. -/
theorem unrecordedFrom_eq_zero {start : PresenceTracker} {channel client : String}
    {calls : List PresenceCall} {s : PresenceTracker}
    (h : Along step (fun s call => call ≠ .clear ∧
      ∀ metadata now, call = .track channel client metadata now → ¬ s.Member channel client) s calls) :
    unrecordedFrom start channel client s 0 calls = 0 := by
  induction calls generalizing s with
  | nil => rfl
  | cons call calls ih =>
    unfold unrecordedFrom
    cases hstep : s.step call with
    | none => rfl
    | some t =>
      have hzero : unrecordedStep start s channel client 0 call = 0 := by
        cases call with
        | track channel' client' metadata now =>
          refine if_neg ?_
          rintro ⟨rfl, rfl, hmember⟩
          exact h.1.2 metadata now rfl hmember
        | clear => exact absurd rfl h.1.1
        | untrack | untrackAll | update | touch | flushDiff | evictStale => rfl
      rw [hzero]
      exact ih (h.2 t hstep)

def aliceInLobby : PresenceTracker := (new.track "lobby" "alice" none 0).2

/-- Tracking a client that is present and then untracking it gives the diff of the opposite order,
after which the client is present. -/
theorem rejoin_diffs_not_sufficient :
    ¬ ∀ (channel : String) (s t s' t' : PresenceTracker) (calls calls' : List PresenceCall),
      Reaches step .new s → Reaches step .new t →
      Window channel s calls s' → Window channel t calls' t' →
      (∀ client, s.Member channel client ↔ t.Member channel client) →
      (s'.flushDiff channel).1.joins.map PresenceInfo.clientId =
        (t'.flushDiff channel).1.joins.map PresenceInfo.clientId →
      (s'.flushDiff channel).1.leaves = (t'.flushDiff channel).1.leaves →
      ∀ client, (s'.flushDiff channel).2.Member channel client ↔
        (t'.flushDiff channel).2.Member channel client := by
  intro h
  have hreaches : Reaches step .new aliceInLobby := ⟨[.track "lobby" "alice" none 0], rfl⟩
  have hagree := h "lobby" aliceInLobby aliceInLobby _ _
    [.track "lobby" "alice" none 1, .untrack "lobby" "alice"]
    [.untrack "lobby" "alice", .track "lobby" "alice" none 1] hreaches hreaches
    ⟨nofun, rfl⟩ ⟨nofun, rfl⟩ (fun _ => Iff.rfl) rfl rfl "alice"
  exact absurd (hagree.mpr rfl) (by decide +kernel)

theorem swap_diffs_sufficient :
    ∃ s' t', Window "lobby" aliceInLobby [.track "lobby" "bob" none 1, .untrack "lobby" "alice"] s' ∧
      Window "lobby" aliceInLobby [.untrack "lobby" "alice", .track "lobby" "bob" none 1] t' ∧
      ∀ client, (s'.flushDiff "lobby").2.Member "lobby" client ↔
        (t'.flushDiff "lobby").2.Member "lobby" client := by
  have hs : Window "lobby" aliceInLobby [.track "lobby" "bob" none 1, .untrack "lobby" "alice"]
      ((((aliceInLobby.flushDiff "lobby").2.track "lobby" "bob" none 1).2).untrack
        "lobby" "alice").2 := ⟨nofun, rfl⟩
  have ht : Window "lobby" aliceInLobby [.untrack "lobby" "alice", .track "lobby" "bob" none 1]
      ((((aliceInLobby.flushDiff "lobby").2.untrack "lobby" "alice").2).track
        "lobby" "bob" none 1).2 := ⟨nofun, rfl⟩
  refine ⟨_, _, hs, ht, (diffs_sufficient_iff hs ht (fun _ => Iff.rfl) rfl rfl).mpr fun client => ?_⟩
  have hbob : ¬ (aliceInLobby.flushDiff "lobby").2.Member "lobby" "bob" := by decide +kernel
  have hbob' : ¬ ((aliceInLobby.flushDiff "lobby").2.untrack "lobby" "alice").2.Member
      "lobby" "bob" := by decide +kernel
  unfold unrecorded
  rw [unrecordedFrom_eq_zero, unrecordedFrom_eq_zero]
  · refine ⟨⟨nofun, nofun⟩, fun u hu => ⟨⟨nofun, ?_⟩, fun _ _ => trivial⟩⟩
    rintro metadata now heq
    cases heq
    cases hu
    exact hbob'
  · refine ⟨⟨nofun, ?_⟩, fun u hu => ⟨⟨nofun, nofun⟩, fun _ _ => trivial⟩⟩
    rintro metadata now heq
    cases heq
    exact hbob

end PresenceTracker

end Hypern.Realtime
