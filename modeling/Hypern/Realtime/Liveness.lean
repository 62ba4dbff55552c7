import Hypern.Realtime.Monitor
import Hypern.Lib.Run
import Mathlib.Data.List.DropRight

/-! What the log of a monitor says about a client, and what its record says. -/

namespace Hypern.Realtime

open Lib

/-! ## Episodes -/

/-- The events since the client was registered or the last pong of it was recorded. -/
def episode (log : List HeartbeatEvent) (client : String) : List HeartbeatEvent :=
  log.rtakeWhile fun e => !e.refreshes client

/-- How often checks have reported the client. -/
def reports (log : List HeartbeatEvent) (client : String) : Nat :=
  (log.map (·.timedOut.count client)).sum

variable {log : List HeartbeatEvent} {e : HeartbeatEvent} {client : String}

theorem episode_of_refreshes (h : e.refreshes client = true) :
    episode (log ++ [e]) client = [] :=
  List.rtakeWhile_concat_neg _ _ _ (by simp [h])

theorem episode_of_not_refreshes (h : e.refreshes client = false) :
    episode (log ++ [e]) client = episode log client ++ [e] :=
  List.rtakeWhile_concat_pos _ _ _ (by simp [h])

theorem reports_append (log later : List HeartbeatEvent) (client : String) :
    reports (log ++ later) client = reports log client + reports later client := by
  unfold reports
  rw [List.map_append, List.sum_append]

theorem reports_singleton (e : HeartbeatEvent) (client : String) :
    reports [e] client = e.timedOut.count client := by
  unfold reports
  rw [List.map_singleton, List.sum_singleton]

theorem reports_pos_iff : 0 < reports log client ↔ ∃ e ∈ log, client ∈ e.timedOut := by
  unfold reports
  rw [List.sum_pos_iff_exists_pos_nat]
  simp only [List.mem_map, exists_exists_and_eq_and, List.count_pos_iff]

/-- Events that do not refresh the client belong to its last episode. -/
theorem suffix_episode {span : List HeartbeatEvent}
    (h : ∀ e ∈ span, e.refreshes client = false) : span <:+ episode (log ++ span) client := by
  induction span using List.reverseRecOn with
  | nil => exact List.nil_suffix
  | append_singleton span e ih =>
    obtain ⟨hspan, he⟩ := List.forall_mem_append.mp h
    rw [← List.append_assoc, episode_of_not_refreshes (he e List.mem_cons_self)]
    obtain ⟨earlier, hearlier⟩ := ih hspan
    exact ⟨earlier, by rw [← List.append_assoc, hearlier]⟩

/-- The last episode begins after any event that refreshes the client. -/
theorem episode_subset {earlier later : List HeartbeatEvent} (h : e.refreshes client = true) :
    episode (earlier ++ e :: later) client ⊆ later := by
  induction later using List.reverseRecOn with
  | nil =>
    rw [episode_of_refreshes h]
    exact List.nil_subset _
  | append_singleton later last ih =>
    rw [← List.cons_append, ← List.append_assoc]
    cases hlast : last.refreshes client with
    | true =>
      rw [episode_of_refreshes hlast]
      exact List.nil_subset _
    | false =>
      rw [episode_of_not_refreshes hlast]
      exact List.append_subset.mpr ⟨List.Subset.trans ih (List.subset_append_left _ _),
        List.subset_append_right _ _⟩

/-! ## One call -/

/-- What a call does to a client, as its event tells. -/
inductive CallEffect (m m' : CountedMonitor) (e : HeartbeatEvent) (client : String) : Prop
  | kept (hevent : e.refreshes client = false) (hcount : e.timedOut.count client = 0)
      (hrecord : ∀ c', m'.clients.lookup client = some c' → ∃ c,
        m.clients.lookup client = some c ∧ c'.lastPong = c.lastPong ∧
          c'.retryCount = c.retryCount ∧ c'.isAlive = c.isAlive ∧
          (e.findsOverdue m.config c = true → c.isAlive = false))
  | refreshed (hevent : e.refreshes client = true)
      (hrecord : ∀ c', m'.clients.lookup client = some c' → c'.retryCount = 0 ∧ c'.isAlive = true)
  | timedOut (hevent : e.refreshes client = false) (hcount : e.timedOut.count client = 1)
      (hrecord : ∃ c, m.clients.lookup client = some c ∧ c.isAlive = true ∧
        m'.clients.lookup client = some c.timeOut)

namespace CallEffect

variable {m m' : CountedMonitor}

/-- The records of other clients are not touched. -/
theorem of_lookup_eq (hevent : e.refreshes client = false) (hcount : e.timedOut = [])
    (hchecks : ∀ c, e.findsOverdue m.config c = false)
    (h : m'.clients.lookup client = m.clients.lookup client) : CallEffect m m' e client := by
  refine .kept hevent (hcount ▸ rfl) fun c' hc' => ⟨c', h ▸ hc', rfl, rfl, rfl, fun hdue => ?_⟩
  exact absurd hdue (ne_true_of_eq_false (hchecks c'))

theorem of_lookup_none (hevent : e.refreshes client = false) (hcount : e.timedOut = [])
    (h : m'.clients.lookup client = none) : CallEffect m m' e client :=
  .kept hevent (hcount ▸ rfl) fun _ hc' => nomatch h.symm.trans hc'

/-- A client whose record is new, or as good as new, begins another episode. -/
theorem of_insert {other : String} {c : ClientHeartbeat}
    (hevent : e.refreshes client = decide (other = client)) (hcount : e.timedOut = [])
    (hchecks : ∀ c, e.findsOverdue m.config c = false) (hretries : c.retryCount = 0)
    (halive : c.isAlive = true) (h : m'.clients = m.clients.insert other c) :
    CallEffect m m' e client := by
  rcases eq_or_ne client other with rfl | hother
  · refine .refreshed (hevent.trans (decide_eq_true rfl)) fun c' hc' => ?_
    rw [h] at hc'
    obtain rfl := Option.some.inj ((AList.lookup_insert _).symm.trans hc')
    exact ⟨hretries, halive⟩
  · refine .of_lookup_eq (hevent.trans (decide_eq_false hother.symm)) hcount hchecks ?_
    rw [h, AList.lookup_insert_ne hother]

end CallEffect

namespace CountedMonitor

variable {m m' : CountedMonitor} {call : HeartbeatCall}

theorem checkTimeouts_effect {now : ℚ} {order : List String}
    (horder : order.Perm m.clients.keys) (client : String) :
    CallEffect m (m.checkTimeouts now order).2 (.checked now (m.checkTimeouts now order).1)
      client := by
  have hcount := @checkTimeouts_count m now order horder client
  have hlookup := @checkTimeouts_lookup m now order horder client
  cases hdue : m.isDue now client with
  | true =>
    rw [if_pos hdue] at hcount hlookup
    obtain ⟨c, hc, -, halive⟩ := isDue_iff.mp hdue
    exact .timedOut rfl hcount ⟨c, hc, halive, hlookup.trans (congrArg _ hc)⟩
  | false =>
    rw [if_neg (ne_true_of_eq_false hdue)] at hcount hlookup
    refine .kept rfl hcount fun c hc => ⟨c, hlookup ▸ hc, rfl, rfl, rfl, fun hoverdue => ?_⟩
    refine Bool.eq_false_iff.mpr fun halive => ne_true_of_eq_false hdue ?_
    exact isDue_iff.mpr ⟨c, hlookup ▸ hc, hoverdue, halive⟩

theorem call_effect (h : m.call call = some (e, m')) (client : String) :
    CallEffect m m' e client := by
  cases call with
  | register other lastEventId now =>
    obtain ⟨rfl, rfl⟩ := Prod.mk.inj (Option.some.inj h)
    exact .of_insert rfl rfl (fun _ => rfl) rfl rfl rfl
  | unregister other =>
    obtain ⟨rfl, rfl⟩ := Prod.mk.inj (Option.some.inj h)
    rcases eq_or_ne client other with rfl | hother
    · exact .of_lookup_none rfl rfl (AList.lookup_erase _ _)
    · exact .of_lookup_eq rfl rfl (fun _ => rfl) (AList.lookup_erase_ne hother)
  | ping other now =>
    obtain ⟨rfl, rfl⟩ := Prod.mk.inj (Option.some.inj h)
    unfold ping
    cases hc : m.clients.lookup other with
    | none => exact .of_lookup_eq rfl rfl (fun _ => rfl) rfl
    | some c =>
      rcases eq_or_ne client other with rfl | hother
      · refine .kept rfl rfl fun c' hc' => ⟨c, hc, ?_⟩
        obtain rfl := Option.some.inj ((AList.lookup_insert _).symm.trans hc')
        exact ⟨rfl, rfl, rfl, nofun⟩
      · exact .of_lookup_eq rfl rfl (fun _ => rfl) (AList.lookup_insert_ne hother)
  | pong other now =>
    obtain ⟨rfl, rfl⟩ := Prod.mk.inj (Option.some.inj h)
    unfold pong
    cases hc : m.clients.lookup other with
    | none => exact .of_lookup_eq (Bool.and_false _) rfl (fun _ => rfl) rfl
    | some c => exact .of_insert (Bool.and_true _) rfl (fun _ => rfl) rfl rfl rfl
  | checkTimeouts now order =>
    obtain ⟨horder, heq⟩ := Option.ite_none_right_eq_some.mp h
    obtain ⟨rfl, rfl⟩ := Prod.mk.inj (Option.some.inj heq)
    exact checkTimeouts_effect horder client
  | evictDead order =>
    obtain ⟨horder, heq⟩ := Option.ite_none_right_eq_some.mp h
    obtain ⟨rfl, rfl⟩ := Prod.mk.inj (Option.some.inj heq)
    have hlookup := @evictDead_lookup m order client
    split_ifs at hlookup with hdead
    · exact .of_lookup_none rfl rfl hlookup
    · exact .of_lookup_eq rfl rfl (fun _ => rfl) hlookup

/-- The counters count the reports and the pongs. -/
theorem call_totals (h : m.call call = some (e, m')) :
    m'.config = m.config ∧ m'.totalTimeouts = m.totalTimeouts + e.timedOut.length ∧
      m'.totalPongs = m.totalPongs + if e.isPong = true then 1 else 0 := by
  cases call with
  | register other lastEventId now =>
    obtain ⟨rfl, rfl⟩ := Prod.mk.inj (Option.some.inj h)
    exact ⟨rfl, rfl, rfl⟩
  | unregister other =>
    obtain ⟨rfl, rfl⟩ := Prod.mk.inj (Option.some.inj h)
    exact ⟨rfl, rfl, rfl⟩
  | ping other now =>
    obtain ⟨rfl, rfl⟩ := Prod.mk.inj (Option.some.inj h)
    unfold ping
    cases m.clients.lookup other with
    | none => exact ⟨rfl, rfl, rfl⟩
    | some c => exact ⟨rfl, rfl, rfl⟩
  | pong other now =>
    obtain ⟨rfl, rfl⟩ := Prod.mk.inj (Option.some.inj h)
    unfold pong
    cases m.clients.lookup other with
    | none => exact ⟨rfl, rfl, rfl⟩
    | some c => exact ⟨rfl, rfl, rfl⟩
  | checkTimeouts now order =>
    obtain ⟨horder, heq⟩ := Option.ite_none_right_eq_some.mp h
    obtain ⟨rfl, rfl⟩ := Prod.mk.inj (Option.some.inj heq)
    have hchecks := @checkTimeouts_checks m now order horder
    refine ⟨hchecks.config, ?_, hchecks.totalPongs⟩
    exact hchecks.totalTimeouts.trans (checkTimeouts_reports horder ▸ rfl)
  | evictDead order =>
    obtain ⟨horder, heq⟩ := Option.ite_none_right_eq_some.mp h
    obtain ⟨rfl, rfl⟩ := Prod.mk.inj (Option.some.inj heq)
    exact ⟨rfl, rfl, rfl⟩

end CountedMonitor

/-! ## Runs -/

namespace WatchedMonitor

/-- A record is not alive, and has one retry, from the report of its episode on. -/
structure Inv (w : WatchedMonitor) : Prop where
  episodes : ∀ client log, log <+: w.log → reports (episode log client) client ≤ 1
  flag : ∀ client c, w.monitor.clients.lookup client = some c →
    reports (episode w.log client) client = if c.isAlive then 0 else 1
  retries : ∀ client c, w.monitor.clients.lookup client = some c →
    c.retryCount = if c.isAlive then 0 else 1
  overdue : ∀ client c, w.monitor.clients.lookup client = some c →
    ∀ e ∈ episode w.log client, e.findsOverdue w.monitor.config c = true → c.isAlive = false
  totalTimeouts : w.monitor.totalTimeouts = (w.log.map (·.timedOut.length)).sum
  totalPongs : w.monitor.totalPongs = w.log.countP (·.isPong)

theorem inv_new (config : HeartbeatConfig) : (new config).Inv where
  episodes _ log h := by
    obtain rfl := List.prefix_nil.mp h
    exact Nat.zero_le 1
  flag _ _ h := nomatch h
  retries _ _ h := nomatch h
  overdue _ _ h := nomatch h
  totalTimeouts := rfl
  totalPongs := rfl

theorem findsOverdue_congr {config : HeartbeatConfig} {c c' : ClientHeartbeat}
    (h : c'.lastPong = c.lastPong) (e : HeartbeatEvent) :
    e.findsOverdue config c' = e.findsOverdue config c := by
  cases e with
  | checked now timedOut =>
    unfold HeartbeatEvent.findsOverdue HeartbeatConfig.overdue
    rw [h]
  | _ => rfl

variable {w w' : WatchedMonitor} {call : HeartbeatCall}

theorem step_eq_some (h : w.step call = some w') :
    ∃ e, w.monitor.call call = some (e, w'.monitor) ∧ w'.log = w.log ++ [e] := by
  obtain ⟨⟨e, m'⟩, hcall, rfl⟩ := Option.map_eq_some_iff.mp h
  exact ⟨e, hcall, rfl⟩

/-- The link between a client's record and the reports of its episode, over one call. -/
theorem Inv.client_step (h : w.Inv) {m' : CountedMonitor}
    (hcall : w.monitor.call call = some (e, m')) (client : String) :
    reports (episode (w.log ++ [e]) client) client ≤ 1 ∧
      ∀ c', m'.clients.lookup client = some c' →
        reports (episode (w.log ++ [e]) client) client = (if c'.isAlive then 0 else 1) ∧
        c'.retryCount = (if c'.isAlive then 0 else 1) ∧
        ∀ e' ∈ episode (w.log ++ [e]) client,
          e'.findsOverdue w.monitor.config c' = true → c'.isAlive = false := by
  cases CountedMonitor.call_effect hcall client with
  | kept hevent hcount hrecord =>
    rw [episode_of_not_refreshes hevent, reports_append, reports_singleton, hcount, Nat.add_zero]
    refine ⟨h.episodes client w.log List.prefix_rfl, fun c' hc' => ?_⟩
    obtain ⟨c, hc, hpong, hretries, halive, hevent⟩ := hrecord c' hc'
    rw [hretries, halive]
    refine ⟨h.flag client c hc, h.retries client c hc, ?_⟩
    simp only [findsOverdue_congr hpong]
    exact List.forall_mem_append.mpr ⟨h.overdue client c hc, List.forall_mem_singleton.mpr hevent⟩
  | refreshed hevent hrecord =>
    rw [episode_of_refreshes hevent]
    refine ⟨Nat.zero_le 1, fun c' hc' => ?_⟩
    obtain ⟨hretries, halive⟩ := hrecord c' hc'
    rw [hretries, halive]
    exact ⟨rfl, rfl, nofun⟩
  | timedOut hevent hcount hrecord =>
    obtain ⟨c, hc, halive, hnext⟩ := hrecord
    have hreports := h.flag client c hc
    have hretries := h.retries client c hc
    rw [halive] at hreports hretries
    rw [episode_of_not_refreshes hevent, reports_append, reports_singleton, hcount, hreports]
    refine ⟨le_refl 1, fun c' hc' => ?_⟩
    obtain rfl := Option.some.inj (hnext.symm.trans hc')
    exact ⟨rfl, congrArg Nat.succ hretries, fun _ _ _ => rfl⟩

theorem Inv.step (h : w.Inv) (hstep : w.step call = some w') : w'.Inv := by
  obtain ⟨e, hcall, hlog⟩ := step_eq_some hstep
  obtain ⟨hconfig, htimeouts, hpongs⟩ := CountedMonitor.call_totals hcall
  have hclient := h.client_step hcall
  refine ⟨fun client log hprefix => ?_, fun client c hc => ?_, fun client c hc => ?_,
    fun client c hc => ?_, ?_, ?_⟩
  · rcases List.prefix_concat_iff.mp (hlog ▸ hprefix) with rfl | hprefix
    · exact (hclient client).1
    · exact h.episodes client log hprefix
  · rw [hlog]
    exact ((hclient client).2 c hc).1
  · exact ((hclient client).2 c hc).2.1
  · rw [hlog, hconfig]
    exact ((hclient client).2 c hc).2.2
  · rw [htimeouts, h.totalTimeouts, hlog, List.map_append, List.sum_append, List.map_singleton,
      List.sum_singleton]
  · rw [hpongs, h.totalPongs, hlog, List.countP_append, List.countP_singleton]

theorem inv_of_exec {config : HeartbeatConfig} {calls : List HeartbeatCall}
    (h : exec step (new config) calls = some w) : w.Inv :=
  Reaches.invariant (fun _ _ _ hinv hstep => Inv.step hinv hstep) ⟨calls, h⟩ (inv_new config)

theorem config_of_exec {config : HeartbeatConfig} {calls : List HeartbeatCall}
    (h : exec step (new config) calls = some w) : w.monitor.config = config := by
  refine @Reaches.invariant _ _ _ (fun w => w.monitor.config = config) _ _
    (fun s call t hs hstep => ?_) ⟨calls, h⟩ rfl
  obtain ⟨e, hcall, -⟩ := step_eq_some hstep
  exact (CountedMonitor.call_totals hcall).1.trans hs

/-- A client is reported once in every episode, and is not alive from then on. -/
theorem reported_once {config : HeartbeatConfig} {calls : List HeartbeatCall}
    (h : exec step (new config) calls = some w) :
    (∀ client earlier span later, w.log = earlier ++ span ++ later →
      (∀ e ∈ span, e.refreshes client = false) → reports span client ≤ 1) ∧
    (∀ client ∈ w.monitor.clients, (w.monitor.isAlive client = false ↔
      ∃ e ∈ episode w.log client, client ∈ e.timedOut)) ∧
    w.monitor.totalTimeouts = (w.log.map (·.timedOut.length)).sum ∧
    w.monitor.totalPongs = w.log.countP (·.isPong) := by
  have hinv := inv_of_exec h
  refine ⟨fun client earlier span later hlog hspan => ?_, fun client hclient => ?_,
    hinv.totalTimeouts, hinv.totalPongs⟩
  · obtain ⟨before, hepisode⟩ := @suffix_episode earlier client span hspan
    have hone := hinv.episodes client (earlier ++ span) ⟨later, hlog.symm⟩
    rw [← hepisode, reports_append] at hone
    omega
  · obtain ⟨c, hc⟩ := Table.mem_iff_lookup.mp hclient
    rw [CountedMonitor.isAlive_eq hc, ← reports_pos_iff, hinv.flag client c hc]
    cases c.isAlive <;> simp

theorem silent_clients_reported_once :
    ∃ w, exec step (new ⟨1, 1⟩) [.register "a" none 0, .register "b" none 0,
        .checkTimeouts 2 ["a", "b"], .checkTimeouts 3 ["b", "a"]] = some w ∧
      w.log = [.registered "a", .registered "b", .checked 2 ["a", "b"], .checked 3 []] ∧
      w.monitor.totalTimeouts = (w.log.map (·.timedOut.length)).sum := by
  have hlog : (exec step (new ⟨1, 1⟩) [.register "a" none 0, .register "b" none 0,
      .checkTimeouts 2 ["a", "b"], .checkTimeouts 3 ["b", "a"]]).map (·.log) =
      some [.registered "a", .registered "b", .checked 2 ["a", "b"], .checked 3 []] := by
    decide +kernel
  obtain ⟨w, hw, hlog⟩ := Option.map_eq_some_iff.mp hlog
  exact ⟨w, hw, hlog, (reported_once hw).2.2.1⟩

/-- The retries of a client never go beyond one, so a silent one is given up only if it has none.
A pong clears them. -/
theorem silent_dead_iff {config : HeartbeatConfig} {calls : List HeartbeatCall}
    (h : exec step (new config) calls = some w) {order : List String}
    (horder : order.Perm w.monitor.clients.keys) (client : String) :
    (∀ earlier silent c, w.log = earlier ++ silent →
      (∀ e ∈ silent, e.refreshes client = false) →
      w.monitor.clients.lookup client = some c →
      config.maxRetries + 1 ≤ silent.countP (·.findsOverdue config c) →
      (client ∈ w.monitor.getDeadClients order ∧
          client ∉ (w.monitor.evictDead order).2.clients ↔ config.maxRetries = 0)) ∧
    ∀ earlier later, w.log = earlier ++ .ponged client true :: later →
      (∀ e ∈ later, client ∉ e.timedOut) → client ∉ w.monitor.getDeadClients order := by
  have hinv := inv_of_exec h
  have hconfig := config_of_exec h
  refine ⟨fun earlier silent c hlog hsilent hc hchecks => ?_, fun earlier later hlog hlater => ?_⟩
  · obtain ⟨e, he, hfinds⟩ := List.countP_pos_iff.mp (Nat.lt_of_lt_of_le (Nat.succ_pos _) hchecks)
    have hepisode : e ∈ episode w.log client := hlog ▸ (suffix_episode hsilent).mem he
    have halive := hinv.overdue client c hc e hepisode (hconfig ▸ hfinds)
    have hretries := hinv.retries client c hc
    rw [halive, if_neg Bool.false_ne_true] at hretries
    have hdead : client ∈ w.monitor.getDeadClients order ↔ config.maxRetries = 0 := by
      rw [CountedMonitor.mem_getDeadClients horder, hc, hconfig]
      simp [hretries]
    refine (and_iff_left_of_imp fun hmem => ?_).trans hdead
    rw [← AList.lookup_eq_none, CountedMonitor.evictDead_lookup, if_pos hmem]
  · intro hdead
    obtain ⟨c, hc, hlt⟩ := (CountedMonitor.mem_getDeadClients horder).mp hdead
    have hretries := hinv.retries client c hc
    cases halive : c.isAlive with
    | true =>
      rw [halive, if_pos rfl] at hretries
      omega
    | false =>
      have hflag := hinv.flag client c hc
      rw [halive, if_neg Bool.false_ne_true] at hflag
      obtain ⟨e, he, hmem⟩ := reports_pos_iff.mp (Nat.lt_of_lt_of_eq Nat.one_pos hflag.symm)
      rw [hlog] at he
      exact hlater e (episode_subset (by simp [HeartbeatEvent.refreshes]) he) hmem

theorem silent_client_given_up :
    ∃ w, exec step (new ⟨1, 0⟩) [.register "a" none 0, .checkTimeouts 2 ["a"]] = some w ∧
      "a" ∈ w.monitor.getDeadClients w.monitor.clients.keys := by
  have hrun : (exec step (new ⟨1, 0⟩) [.register "a" none 0, .checkTimeouts 2 ["a"]]).map
      (fun w => (w.log, w.monitor.clients.lookup "a")) =
        some ([.registered "a", .checked 2 ["a"]], some ⟨0, 0, 1, false, none⟩) := by
    decide +kernel
  obtain ⟨w, hw, hstate⟩ := Option.map_eq_some_iff.mp hrun
  obtain ⟨hlog, hrecord⟩ := Prod.mk.inj hstate
  have hdead := (silent_dead_iff hw (List.Perm.refl _) "a").1 [.registered "a"]
    [.checked 2 ["a"]] ⟨0, 0, 1, false, none⟩ hlog (by decide) hrecord (by decide +kernel)
  exact ⟨w, hw, (hdead.mpr rfl).1⟩

/-- A client that is silent for two checks is not given up after one retry. -/
theorem silent_client_kept :
    ¬ ∀ (config : HeartbeatConfig) (calls : List HeartbeatCall) (w : WatchedMonitor)
      (order : List String) (client : String) (earlier silent : List HeartbeatEvent)
      (c : ClientHeartbeat), exec step (new config) calls = some w →
        order.Perm w.monitor.clients.keys → w.log = earlier ++ silent →
        (∀ e ∈ silent, e.refreshes client = false) →
        w.monitor.clients.lookup client = some c →
        config.maxRetries + 1 ≤ silent.countP (·.findsOverdue config c) →
        client ∈ w.monitor.getDeadClients order ∧
          client ∉ (w.monitor.evictDead order).2.clients := by
  intro hclaim
  have hrun : (exec step (new ⟨1, 1⟩) [.register "a" none 0, .checkTimeouts 2 ["a"],
      .checkTimeouts 3 ["a"]]).map (fun w => (w.log, w.monitor.clients.lookup "a",
        w.monitor.getDeadClients w.monitor.clients.keys)) =
      some ([.registered "a", .checked 2 ["a"], .checked 3 []], some ⟨0, 0, 1, false, none⟩, []) := by
    decide +kernel
  obtain ⟨w, hw, hstate⟩ := Option.map_eq_some_iff.mp hrun
  obtain ⟨hlog, hstate⟩ := Prod.mk.inj hstate
  obtain ⟨hrecord, hnone⟩ := Prod.mk.inj hstate
  have hdead := hclaim ⟨1, 1⟩ _ w _ "a" [.registered "a"] [.checked 2 ["a"], .checked 3 []]
    ⟨0, 0, 1, false, none⟩ hw (List.Perm.refl _) hlog (by decide) hrecord (by decide +kernel)
  rw [hnone] at hdead
  exact List.not_mem_nil hdead.1

end WatchedMonitor

end Hypern.Realtime
