import Mathlib.Data.Rat.Defs
import Hypern.Lib.Table
import Mathlib.Algebra.Ring.Nat

/-! `heartbeat.rs`: the clients that are watched. A call takes the time that `now_secs` returns
to it. -/

namespace Hypern.Realtime

open Lib

structure ClientHeartbeat where
  lastPing : ℚ
  lastPong : ℚ
  retryCount : Nat
  isAlive : Bool
  lastEventId : Option String

structure HeartbeatMonitor where
  clients : Table String ClientHeartbeat

namespace HeartbeatMonitor

def new : HeartbeatMonitor := ⟨∅⟩

/-- A client that is registered already starts afresh. -/
def register (m : HeartbeatMonitor) (client : String) (lastEventId : Option String) (now : ℚ) :
    HeartbeatMonitor :=
  ⟨m.clients.insert client ⟨now, now, 0, true, lastEventId⟩⟩

def unregister (m : HeartbeatMonitor) (client : String) : Bool × HeartbeatMonitor :=
  (decide (client ∈ m.clients), ⟨m.clients.erase client⟩)

end HeartbeatMonitor

end Hypern.Realtime
