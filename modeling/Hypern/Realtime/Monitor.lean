import Hypern.Realtime.Heartbeat

/-! The rest of `heartbeat.rs`: pings and pongs, the check for timeouts and the clients that are
given up. An iteration over the clients takes their keys in the order that it visits them. -/

namespace Hypern.Realtime

open Lib

deriving instance DecidableEq for ClientHeartbeat

structure HeartbeatConfig where
  timeoutSecs : ℚ
  maxRetries : Nat

/-- The monitor with its configuration and its counters. -/
structure CountedMonitor extends HeartbeatMonitor where
  config : HeartbeatConfig
  totalPings : Nat
  totalPongs : Nat
  totalTimeouts : Nat

/-- The client has been silent for longer than the timeout. -/
def HeartbeatConfig.overdue (config : HeartbeatConfig) (now : ℚ) (c : ClientHeartbeat) : Bool :=
  decide (config.timeoutSecs < now - c.lastPong)

def ClientHeartbeat.timeOut (c : ClientHeartbeat) : ClientHeartbeat :=
  { c with isAlive := false, retryCount := c.retryCount + 1 }

namespace CountedMonitor

def new (config : HeartbeatConfig) : CountedMonitor := ⟨.new, config, 0, 0, 0⟩

variable (m : CountedMonitor) (client : String)

def register (lastEventId : Option String) (now : ℚ) : CountedMonitor :=
  { m with toHeartbeatMonitor := m.toHeartbeatMonitor.register client lastEventId now }

def unregister : Bool × CountedMonitor :=
  let r := m.toHeartbeatMonitor.unregister client
  (r.1, { m with toHeartbeatMonitor := r.2 })

def ping (now : ℚ) : Bool × CountedMonitor :=
  match m.clients.lookup client with
  | some c =>
    (true,
      { m with
        clients := m.clients.insert client { c with lastPing := now }
        totalPings := m.totalPings + 1 })
  | none => (false, m)

def pong (now : ℚ) : Bool × CountedMonitor :=
  match m.clients.lookup client with
  | some c =>
    (true,
      { m with
        clients := m.clients.insert client { c with lastPong := now, retryCount := 0, isAlive := true }
        totalPongs := m.totalPongs + 1 })
  | none => (false, m)

/-- One turn of the loop of `check_timeouts`. -/
def checkClient (now : ℚ) (acc : List String × CountedMonitor) (client : String) :
    List String × CountedMonitor :=
  match acc.2.clients.lookup client with
  | some c =>
    if acc.2.config.overdue now c && c.isAlive then
      (acc.1 ++ [client],
        { acc.2 with
          clients := acc.2.clients.insert client c.timeOut
          totalTimeouts := acc.2.totalTimeouts + 1 })
    else acc
  | none => acc

def checkTimeouts (now : ℚ) (order : List String) : List String × CountedMonitor :=
  order.foldl (checkClient now) ([], m)

def isTimedOut : Bool :=
  match m.clients.lookup client with
  | some c => !c.isAlive
  | none => true

def isAlive : Bool :=
  match m.clients.lookup client with
  | some c => c.isAlive
  | none => false

def retryCount : Nat :=
  match m.clients.lookup client with
  | some c => c.retryCount
  | none => 0

def getDeadClients (order : List String) : List String :=
  order.filter fun client => decide (m.config.maxRetries < m.retryCount client)

def evictDead (order : List String) : List String × CountedMonitor :=
  let dead := m.getDeadClients order
  (dead, { m with clients := dead.foldl (fun clients client => clients.erase client) m.clients })

end CountedMonitor

/-! ## Runs -/

inductive HeartbeatCall
  | register (client : String) (lastEventId : Option String) (now : ℚ)
  | unregister (client : String)
  | ping (client : String) (now : ℚ)
  | pong (client : String) (now : ℚ)
  | checkTimeouts (now : ℚ) (order : List String)
  | evictDead (order : List String)

/-- A call that was made, with what it returned. -/
inductive HeartbeatEvent
  | registered (client : String)
  | unregistered (client : String) (found : Bool)
  | pinged (client : String) (found : Bool)
  | ponged (client : String) (found : Bool)
  | checked (now : ℚ) (timedOut : List String)
  | evicted (dead : List String)
  deriving DecidableEq

namespace HeartbeatEvent

/-- The clients that the check reports. -/
def timedOut : HeartbeatEvent → List String
  | .checked _ timedOut => timedOut
  | _ => []

/-- A pong that was recorded. -/
def isPong : HeartbeatEvent → Bool
  | .ponged _ found => found
  | _ => false

/-- The client was registered, or a pong of it was recorded. -/
def refreshes (client : String) : HeartbeatEvent → Bool
  | .registered other => decide (other = client)
  | .ponged other found => decide (other = client) && found
  | _ => false

/-- A check at a time when the client with this record was silent for too long. -/
def findsOverdue (config : HeartbeatConfig) (c : ClientHeartbeat) : HeartbeatEvent → Bool
  | .checked now _ => config.overdue now c
  | _ => false

end HeartbeatEvent

namespace CountedMonitor

/-- A map is iterated in some order of its keys. -/
def call (m : CountedMonitor) : HeartbeatCall → Option (HeartbeatEvent × CountedMonitor)
  | .register client lastEventId now =>
    some (.registered client, m.register client lastEventId now)
  | .unregister client =>
    let r := m.unregister client
    some (.unregistered client r.1, r.2)
  | .ping client now =>
    let r := m.ping client now
    some (.pinged client r.1, r.2)
  | .pong client now =>
    let r := m.pong client now
    some (.ponged client r.1, r.2)
  | .checkTimeouts now order =>
    let r := m.checkTimeouts now order
    if order.Perm m.clients.keys then some (.checked now r.1, r.2) else none
  | .evictDead order =>
    let r := m.evictDead order
    if order.Perm m.clients.keys then some (.evicted r.1, r.2) else none

end CountedMonitor

/-- The monitor with the log of its calls. -/
structure WatchedMonitor where
  monitor : CountedMonitor
  log : List HeartbeatEvent

namespace WatchedMonitor

def new (config : HeartbeatConfig) : WatchedMonitor := ⟨.new config, []⟩

def step (w : WatchedMonitor) (call : HeartbeatCall) : Option WatchedMonitor :=
  (w.monitor.call call).map fun r => ⟨r.2, w.log ++ [r.1]⟩

end WatchedMonitor

/-! ## What the calls do to one client -/

namespace CountedMonitor

variable {m : CountedMonitor} {now : ℚ} {order : List String}

/-- The client is reported by a check at this time. -/
def isDue (m : CountedMonitor) (now : ℚ) (client : String) : Bool :=
  match m.clients.lookup client with
  | some c => m.config.overdue now c && c.isAlive
  | none => false

theorem isDue_iff {client : String} :
    m.isDue now client = true ↔ ∃ c, m.clients.lookup client = some c ∧
      m.config.overdue now c = true ∧ c.isAlive = true := by
  unfold isDue
  cases m.clients.lookup client with
  | none => simp
  | some c => simp

theorem checkClient_of_isDue {acc : List String × CountedMonitor} {client : String}
    (h : acc.2.isDue now client = true) :
    ∃ c, acc.2.clients.lookup client = some c ∧
      checkClient now acc client = (acc.1 ++ [client],
        { acc.2 with
          clients := acc.2.clients.insert client c.timeOut
          totalTimeouts := acc.2.totalTimeouts + 1 }) := by
  obtain ⟨c, hc, hdue⟩ := isDue_iff.mp h
  refine ⟨c, hc, ?_⟩
  unfold checkClient
  rw [hc]
  exact if_pos (Bool.and_eq_true_iff.mpr hdue)

theorem checkClient_of_not_isDue {acc : List String × CountedMonitor} {client : String}
    (h : acc.2.isDue now client = false) : checkClient now acc client = acc := by
  unfold isDue at h
  unfold checkClient
  cases hc : acc.2.clients.lookup client with
  | none => rfl
  | some c =>
    rw [hc] at h
    exact if_neg (ne_true_of_eq_false h)

/-- A turn of the loop changes nothing for the clients that come after it. -/
theorem checkClient_lookup {acc : List String × CountedMonitor} {client other : String}
    (h : other ≠ client) :
    (checkClient now acc client).2.clients.lookup other = acc.2.clients.lookup other := by
  cases hdue : acc.2.isDue now client with
  | true =>
    obtain ⟨c, -, heq⟩ := checkClient_of_isDue hdue
    rw [heq]
    exact AList.lookup_insert_ne h
  | false => rw [checkClient_of_not_isDue hdue]

theorem checkClient_config (acc : List String × CountedMonitor) (client : String) :
    (checkClient now acc client).2.config = acc.2.config := by
  cases hdue : acc.2.isDue now client with
  | true =>
    obtain ⟨c, -, heq⟩ := checkClient_of_isDue hdue
    rw [heq]
  | false => rw [checkClient_of_not_isDue hdue]

theorem isDue_congr {m' : CountedMonitor} {client : String} (hconfig : m'.config = m.config)
    (hlookup : m'.clients.lookup client = m.clients.lookup client) :
    m'.isDue now client = m.isDue now client := by
  unfold isDue
  rw [hlookup, hconfig]

/-- What a check of these clients does. -/
structure Checks (m : CountedMonitor) (now : ℚ) (order : List String)
    (r : List String × CountedMonitor) : Prop where
  config : r.2.config = m.config
  totalPongs : r.2.totalPongs = m.totalPongs
  totalTimeouts : r.2.totalTimeouts = m.totalTimeouts + (order.filter (m.isDue now)).length
  lookup : ∀ client, r.2.clients.lookup client =
    if client ∈ order ∧ m.isDue now client = true then
      (m.clients.lookup client).map ClientHeartbeat.timeOut
    else m.clients.lookup client

/-- The loop over any clients, each visited once. -/
theorem foldl_checkClient (hnodup : order.Nodup) (acc : List String × CountedMonitor) :
    (order.foldl (checkClient now) acc).1 = acc.1 ++ order.filter (acc.2.isDue now) ∧
      acc.2.Checks now order (order.foldl (checkClient now) acc) := by
  induction order generalizing acc with
  | nil => exact ⟨(List.append_nil _).symm, rfl, rfl, rfl, fun client => by simp⟩
  | cons first rest ih =>
    obtain ⟨hfirst, hrest⟩ := List.nodup_cons.mp hnodup
    obtain ⟨hlist, hchecks⟩ := ih hrest (checkClient now acc first)
    have hdue : ∀ other, other ≠ first →
        (checkClient now acc first).2.isDue now other = acc.2.isDue now other := fun other hne =>
      isDue_congr (checkClient_config acc first) (checkClient_lookup hne)
    have hfilter : rest.filter ((checkClient now acc first).2.isDue now) =
        rest.filter (acc.2.isDue now) :=
      List.filter_congr fun other hother => hdue other fun heq => hfirst (heq ▸ hother)
    have hothers : ∀ client, client ≠ first →
        (rest.foldl (checkClient now) (checkClient now acc first)).2.clients.lookup client =
          if client ∈ first :: rest ∧ acc.2.isDue now client = true then
            (acc.2.clients.lookup client).map ClientHeartbeat.timeOut
          else acc.2.clients.lookup client := by
      intro client hne
      rw [hchecks.lookup, checkClient_lookup hne, hdue client hne]
      simp only [List.mem_cons, hne, false_or]
    -- the first client does not come again, so the rest of the loop leaves it as it is
    have hlast := hchecks.lookup first
    rw [if_neg fun hmem => hfirst hmem.1] at hlast
    rw [List.foldl_cons, hlist, hfilter]
    cases hfirstDue : acc.2.isDue now first with
    | true =>
      obtain ⟨c, hc, heq⟩ := checkClient_of_isDue hfirstDue
      have htimeouts := hchecks.totalTimeouts
      rw [hfilter] at htimeouts
      rw [List.filter_cons_of_pos hfirstDue]
      rw [heq] at hchecks hlast htimeouts hothers ⊢
      refine ⟨List.append_assoc _ _ _, hchecks.config, hchecks.totalPongs, ?_, fun client => ?_⟩
      · rw [htimeouts, List.filter_cons_of_pos hfirstDue, List.length_cons]
        change acc.2.totalTimeouts + 1 + _ = _
        omega
      · by_cases hclient : client = first
        · rw [hclient, hlast, if_pos ⟨List.mem_cons_self, hfirstDue⟩, hc]
          exact AList.lookup_insert _
        · exact hothers client hclient
    | false =>
      have heq := checkClient_of_not_isDue hfirstDue
      rw [heq] at hchecks hlast hothers ⊢
      rw [List.filter_cons_of_neg (ne_true_of_eq_false hfirstDue)]
      refine ⟨rfl, hchecks.config, hchecks.totalPongs, ?_, fun client => ?_⟩
      · rw [hchecks.totalTimeouts, List.filter_cons_of_neg (ne_true_of_eq_false hfirstDue)]
      · by_cases hclient : client = first
        · rw [hclient, hlast, if_neg fun hmem => ne_true_of_eq_false hfirstDue hmem.2]
        · exact hothers client hclient

theorem checkTimeouts_reports (horder : order.Perm m.clients.keys) :
    (m.checkTimeouts now order).1 = order.filter (m.isDue now) :=
  (foldl_checkClient (horder.nodup_iff.mpr m.clients.keys_nodup) ([], m)).1

theorem checkTimeouts_checks (horder : order.Perm m.clients.keys) :
    m.Checks now order (m.checkTimeouts now order) :=
  (foldl_checkClient (horder.nodup_iff.mpr m.clients.keys_nodup) ([], m)).2

theorem mem_keys_of_lookup {c : ClientHeartbeat} {client : String}
    (h : m.clients.lookup client = some c) : client ∈ m.clients.keys :=
  AList.mem_keys.mp (Table.mem_iff_lookup.mpr ⟨c, h⟩)

theorem isAlive_eq {c : ClientHeartbeat} {client : String} (h : m.clients.lookup client = some c) :
    m.isAlive client = c.isAlive := by
  unfold isAlive
  rw [h]

theorem mem_getDeadClients {client : String} (horder : order.Perm m.clients.keys) :
    client ∈ m.getDeadClients order ↔
      ∃ c, m.clients.lookup client = some c ∧ m.config.maxRetries < c.retryCount := by
  unfold getDeadClients retryCount
  rw [List.mem_filter, horder.mem_iff, decide_eq_true_iff]
  cases hc : m.clients.lookup client with
  | none => simp
  | some c => simp [mem_keys_of_lookup hc]

theorem mem_keys_of_isDue {client : String} (h : m.isDue now client = true) :
    client ∈ m.clients.keys := by
  obtain ⟨c, hc, -⟩ := isDue_iff.mp h
  exact mem_keys_of_lookup hc

/-- A check changes the record of a client exactly when it reports the client. -/
theorem checkTimeouts_lookup (horder : order.Perm m.clients.keys) (client : String) :
    (m.checkTimeouts now order).2.clients.lookup client =
      if m.isDue now client = true then
        (m.clients.lookup client).map ClientHeartbeat.timeOut
      else m.clients.lookup client := by
  rw [(checkTimeouts_checks horder).lookup]
  refine ite_congr (propext (and_iff_right_of_imp fun hdue => ?_)) (fun _ => rfl) fun _ => rfl
  exact horder.mem_iff.mpr (mem_keys_of_isDue hdue)

theorem checkTimeouts_count (horder : order.Perm m.clients.keys) (client : String) :
    (m.checkTimeouts now order).1.count client = if m.isDue now client = true then 1 else 0 := by
  have hnodup : (order.filter (m.isDue now)).Nodup :=
    (horder.nodup_iff.mpr m.clients.keys_nodup).filter _
  rw [checkTimeouts_reports horder]
  split_ifs with hdue
  · have hmem := horder.mem_iff.mpr (mem_keys_of_isDue hdue)
    exact List.count_eq_one_of_mem hnodup (List.mem_filter.mpr ⟨hmem, hdue⟩)
  · exact List.count_eq_zero.mpr fun hmem => hdue (List.mem_filter.mp hmem).2

theorem evictDead_lookup (client : String) :
    (m.evictDead order).2.clients.lookup client =
      if client ∈ m.getDeadClients order then none else m.clients.lookup client :=
  Table.lookup_foldl_erase _ _ client

end CountedMonitor

end Hypern.Realtime
