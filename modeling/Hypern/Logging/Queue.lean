import Hypern.Lib.Threads

/-! The log queue: entries go into a bounded channel, and a thread of its own writes them to stderr.
The queue is a global that `init` replaces and `shutdown` takes away. A forked child has a copy of
it without the thread. -/

namespace Hypern.Logging

open Lib

inductive LogLevel
  | trace | debug | info | warn | error | off
  deriving DecidableEq

namespace LogLevel

def discriminant : LogLevel → Nat
  | .trace => 0
  | .debug => 1
  | .info => 2
  | .warn => 3
  | .error => 4
  | .off => 5

instance : LE LogLevel := ⟨fun a b => a.discriminant ≤ b.discriminant⟩

instance : DecidableLE LogLevel := fun a b => inferInstanceAs (Decidable (a.discriminant ≤ b.discriminant))

def asStr : LogLevel → String
  | .trace => "TRACE"
  | .debug => "DEBUG"
  | .info => "INFO"
  | .warn => "WARN"
  | .error => "ERROR"
  | .off => "OFF"

def colorCode : LogLevel → String
  | .trace => "\x1b[90m"
  | .debug => "\x1b[36m"
  | .info => "\x1b[32m"
  | .warn => "\x1b[33m"
  | .error => "\x1b[31m"
  | .off => ""

end LogLevel

/-- `F` are the floating-point numbers: a time, a duration. -/
structure LogEntry (F : Type) where
  timestamp : F
  level : LogLevel
  message : String
  target : Option String
  requestId : Option String
  method : Option String
  path : Option String
  status : Option UInt16
  durationMs : Option F
  workerId : Option Nat

/-- How `format_timestamp` and `{:.2}` write a number. -/
structure Formats (F : Type) where
  timestamp : F → String
  duration : F → String
  zero : F

variable {F : Type}

namespace LogEntry

def new (now : F) (level : LogLevel) (message : String) : LogEntry F :=
  ⟨now, level, message, none, none, none, none, none, none, none⟩

def request (now : F) (method path : String) (requestId : Option String) : LogEntry F :=
  ⟨now, .info, "", some "request", requestId, some method, some path, none, none, none⟩

def response (now : F) (method path : String) (status : UInt16) (durationMs : F)
    (requestId : Option String) : LogEntry F :=
  ⟨now, .info, "", some "response", requestId, some method, some path, some status,
    some durationMs, none⟩

def statusColor (status : UInt16) : String :=
  if 200 ≤ status ∧ status ≤ 299 then "\x1b[32m"
  else if 300 ≤ status ∧ status ≤ 399 then "\x1b[36m"
  else if 400 ≤ status ∧ status ≤ 499 then "\x1b[33m"
  else if 500 ≤ status ∧ status ≤ 599 then "\x1b[31m"
  else "\x1b[37m"

def dim (text : String) : String := "\x1b[2m" ++ text ++ "\x1b[0m"

/-- The level in its color, padded to five characters. -/
def levelField (e : LogEntry F) : String :=
  e.level.colorCode ++ e.level.asStr ++
    String.ofList (List.replicate (5 - e.level.asStr.length) ' ') ++ "\x1b[0m"

def formatColored (fmt : Formats F) (e : LogEntry F) : String :=
  let head := dim (fmt.timestamp e.timestamp) ++ " " ++ e.levelField
  let method := e.method.getD "?"
  let path := e.path.getD "?"
  let rid := dim ("[" ++ e.requestId.getD "-" ++ "]")
  if e.target = some "request" then
    head ++ " \x1b[35m-->\x1b[0m " ++ method ++ " " ++ path ++ " " ++ rid
  else if e.target = some "response" then
    let status := e.status.getD 0
    head ++ " \x1b[35m<--\x1b[0m " ++ method ++ " " ++ path ++ " " ++ statusColor status ++
      toString status.toNat ++ "\x1b[0m " ++ dim (fmt.duration (e.durationMs.getD fmt.zero) ++ "ms") ++
      " " ++ rid
  else
    head ++ ((e.target.map fun t => " " ++ dim t).getD "") ++
      ((e.workerId.map fun w => " " ++ dim ("[worker-" ++ toString w ++ "]")).getD "") ++ " " ++ e.message

end LogEntry

structure LogConfig where
  level : LogLevel
  logRequest : Bool
  logResponse : Bool
  queueSize : Nat
  skipPaths : List String

def LogConfig.shouldSkipPath (config : LogConfig) (path : String) : Bool :=
  config.skipPaths.any fun p => p.toList.isPrefixOf path.toList

/-- The places of `log_consumer`. `leaving` is past the last look at the channel, which is given up
when the thread has `exited`. A thread that a fork has left behind is `gone`. -/
inductive Consumer (F : Type)
  | looping
  | receiving
  | received (entry : LogEntry F)
  | flushing
  | flushed (entry : LogEntry F)
  | leaving
  | exited
  | gone (holding : List (LogEntry F))

namespace Consumer

def holding : Consumer F → List (LogEntry F)
  | .received entry | .flushed entry => [entry]
  | .gone holding => holding
  | _ => []

/-- Past the loop. -/
def ending : Consumer F → Bool
  | .flushing | .flushed _ | .leaving | .exited => true
  | _ => false

/-- Past the last look at the channel. -/
def finished : Consumer F → Bool
  | .leaving | .exited => true
  | _ => false

/-- The thread has ended, or is not in this process. -/
def isOver : Consumer F → Bool
  | .exited | .gone _ => true
  | _ => false

end Consumer

/-- The channel is `connected` as long as its sender is in the global. `accepted`, `taken` and
`discarded` are what went in, what the consumer got and what was left when it gave up the channel;
`written` is what it wrote to stderr. -/
structure LogQueueInner (F : Type) where
  config : LogConfig
  running : Bool
  connected : Bool
  capacity : Nat
  queue : List (LogEntry F)
  consumer : Consumer F
  accepted : List (LogEntry F)
  taken : List (LogEntry F)
  discarded : List (LogEntry F)
  written : List String

namespace LogQueueInner

def start (config : LogConfig) : LogQueueInner F :=
  ⟨config, true, true, config.queueSize, [], .looping, [], [], [], []⟩

def buffer (q : LogQueueInner F) (e : LogEntry F) : LogQueueInner F :=
  if q.queue.length < q.capacity then
    { q with queue := q.queue ++ [e], accepted := q.accepted ++ [e] }
  else q

/-- A channel without capacity hands over to a consumer that waits, and takes nothing else. -/
def trySend (q : LogQueueInner F) (e : LogEntry F) : LogQueueInner F :=
  match q.consumer with
  | .exited => q
  | .receiving =>
    if q.capacity = 0 then
      { q with consumer := .received e, accepted := q.accepted ++ [e], taken := q.taken ++ [e] }
    else q.buffer e
  | _ => q.buffer e

def write (fmt : Formats F) (q : LogQueueInner F) (e : LogEntry F) (next : Consumer F) :
    LogQueueInner F :=
  if q.config.level ≤ e.level then
    { q with consumer := next, written := q.written ++ [e.formatColored fmt] }
  else { q with consumer := next }

/-- One step of `log_consumer`. It waits for an entry with `recv_timeout`, which fails once the
channel is empty and has no sender. -/
def consume (fmt : Formats F) (q : LogQueueInner F) : Option (LogQueueInner F) :=
  match q.consumer with
  | .looping => some { q with consumer := if q.running then .receiving else .flushing }
  | .receiving =>
    match q.queue with
    | e :: rest => some { q with queue := rest, consumer := .received e, taken := q.taken ++ [e] }
    | [] => some { q with consumer := if q.connected then .looping else .flushing }
  | .received e => some (q.write fmt e .looping)
  | .flushing =>
    match q.queue with
    | e :: rest => some { q with queue := rest, consumer := .flushed e, taken := q.taken ++ [e] }
    | [] => some { q with consumer := .leaving }
  | .flushed e => some (q.write fmt e .flushing)
  | .leaving =>
    some { q with consumer := .exited, queue := [], discarded := q.discarded ++ q.queue }
  | .exited => none
  | .gone _ => none

/-- The copy in a child. -/
def forked (q : LogQueueInner F) : LogQueueInner F :=
  match q.consumer with
  | .exited => q
  | consumer => { q with consumer := .gone consumer.holding }

end LogQueueInner

/-- `LOG_QUEUE` is one of the queues there have been, behind a lock that `readers` threads have. -/
structure Globals (F : Type) where
  current : Option Nat
  queues : List (LogQueueInner F)
  readers : Nat

namespace Globals

def inner (g : Globals F) : Option (LogQueueInner F) := g.current.bind fun i => g.queues[i]?

def modifyCurrent (f : LogQueueInner F → LogQueueInner F) (g : Globals F) : Globals F :=
  match g.current with
  | some i => { g with queues := g.queues.modify i f }
  | none => g

/-- `*LOG_QUEUE.write() = None`, which drops the sender. -/
def takeAway (g : Globals F) : Globals F :=
  { g.modifyCurrent fun q => { q with connected := false } with current := none }

def install (config : LogConfig) (g : Globals F) : Globals F :=
  { g.takeAway with
    current := some g.queues.length
    queues := g.takeAway.queues ++ [.start config] }

end Globals

/-- What a thread does next in one of the functions. `sending` has the lock for reading. `stop` and
`disconnect` are the two parts of `shutdown`, which `init` does first. -/
inductive Task (F : Type)
  | logRequest (now : F) (method path : String) (requestId : Option String)
  | logResponse (now : F) (method path : String) (status : UInt16) (durationMs : F)
      (requestId : Option String)
  | logEntry (entry : LogEntry F)
  | sending (queue : Nat) (entry : LogEntry F)
  | updateConfig (config : LogConfig)
  | stop (next : Option LogConfig)
  | disconnect (next : Option LogConfig)
  | install (config : LogConfig)
  | reinit
  | abandon (config : LogConfig)
  | returned

namespace Task

def isSending : Task F → Bool
  | .sending _ _ => true
  | _ => false

/-- The lock is taken for writing only while no thread reads. -/
def whenFree (g : Globals F) (g' : Globals F) (task : Task F) : Option (Globals F × Task F) :=
  if g.readers = 0 then some (g', task) else none

def next (_ : Nat) (g : Globals F) : Task F → Unit → Option (Globals F × Task F)
  | .logRequest now method path requestId, _ =>
    match g.inner with
    | none => some (g, .returned)
    | some q =>
      if !q.config.logRequest || q.config.shouldSkipPath path then some (g, .returned)
      else some (g, .logEntry (.request now method path requestId))
  | .logResponse now method path status durationMs requestId, _ =>
    match g.inner with
    | none => some (g, .returned)
    | some q =>
      if !q.config.logResponse || q.config.shouldSkipPath path then some (g, .returned)
      else some (g, .logEntry (.response now method path status durationMs requestId))
  | .logEntry e, _ =>
    match g.current, g.inner with
    | some i, some q =>
      if q.config.level ≤ e.level then some ({ g with readers := g.readers + 1 }, .sending i e)
      else some (g, .returned)
    | _, _ => some (g, .returned)
  | .sending i e, _ =>
    some ({ g with queues := g.queues.modify i (·.trySend e), readers := g.readers - 1 }, .returned)
  | .updateConfig config, _ => some (g.modifyCurrent fun q => { q with config := config }, .returned)
  | .stop next, _ => some (g.modifyCurrent fun q => { q with running := false }, .disconnect next)
  | .disconnect next, _ =>
    whenFree g g.takeAway (match next with | some config => .install config | none => .returned)
  | .install config, _ => whenFree g (g.install config) .returned
  | .reinit, _ =>
    match g.inner with
    | some q => some (g, .abandon q.config)
    | none => some (g, .returned)
  | .abandon config, _ => whenFree g g.takeAway (.stop (some config))
  | .returned, _ => none

end Task

/-- The functions that other code calls. -/
inductive Call (F : Type)
  | logRequest (now : F) (method path : String) (requestId : Option String)
  | logResponse (now : F) (method path : String) (status : UInt16) (durationMs : F)
      (requestId : Option String)
  | logEntry (entry : LogEntry F)
  | updateConfig (config : LogConfig)
  | init (config : LogConfig)
  | shutdown
  | reinitAfterFork

def Call.task : Call F → Task F
  | .logRequest now method path requestId => .logRequest now method path requestId
  | .logResponse now method path status durationMs requestId =>
    .logResponse now method path status durationMs requestId
  | .logEntry e => .logEntry e
  | .updateConfig config => .updateConfig config
  | .init config => .stop (some config)
  | .shutdown => .stop none
  | .reinitAfterFork => .reinit

/-- After a `fork` the run is that of the child: its other threads are gone, and what they had of
the lock stays taken. -/
inductive Action (F : Type)
  | call (call : Call F)
  | run (thread : Nat)
  | consume (queue : Nat)
  | fork

def Action.isUpdate : Action F → Bool
  | .call (.updateConfig _) => true
  | _ => false

abbrev System (F : Type) := Config (Globals F) (Task F)

namespace System

def init : System F := ⟨⟨none, [], 0⟩, []⟩

def step (fmt : Formats F) (c : System F) : Action F → Option (System F)
  | .call call => some ⟨c.shared, c.threads ++ [call.task]⟩
  | .run i => stepThread Task.next c i ()
  | .consume i =>
    (c.shared.queues[i]?).bind fun q => (q.consume fmt).map fun q' =>
      ⟨{ c.shared with queues := c.shared.queues.set i q' }, c.threads⟩
  | .fork => some ⟨{ c.shared with queues := c.shared.queues.map (·.forked) }, []⟩

end System

/-! ## What a step can do -/

namespace LogQueueInner

variable {fmt : Formats F} {q q' : LogQueueInner F} {e : LogEntry F}

/-- What a step does to one queue. As long as it is `calm` the configuration stays, and what is sent
has its level. -/
inductive Turn (fmt : Formats F) (calm : Prop) (q : LogQueueInner F) : LogQueueInner F → Prop
  | keep : Turn fmt calm q q
  | configure (config : LogConfig) (update : ¬ calm) : Turn fmt calm q { q with config := config }
  | stop : Turn fmt calm q { q with running := false }
  | disconnect : Turn fmt calm q { q with connected := false }
  | send (e : LogEntry F) (connected : q.connected = true) (level : calm → q.config.level ≤ e.level) :
    Turn fmt calm q (q.trySend e)
  | consume {q' : LogQueueInner F} (h : q.consume fmt = some q') : Turn fmt calm q q'
  | fork : Turn fmt calm q q.forked

/-- An entry is turned away, put into the queue or handed to the waiting consumer. -/
inductive Sent (q : LogQueueInner F) (e : LogEntry F) : LogQueueInner F → Prop
  | refused : Sent q e q
  | buffered (open_ : q.consumer ≠ .exited) (room : q.queue.length < q.capacity) :
    Sent q e { q with queue := q.queue ++ [e], accepted := q.accepted ++ [e] }
  | handed (waiting : q.consumer = .receiving) (capacity : q.capacity = 0) :
    Sent q e
      { q with consumer := .received e, accepted := q.accepted ++ [e], taken := q.taken ++ [e] }

theorem buffer_sent (hopen : q.consumer ≠ .exited) : Sent q e (q.buffer e) := by
  unfold buffer
  split_ifs with hroom
  · exact .buffered hopen hroom
  · exact .refused

theorem trySend_sent (q : LogQueueInner F) (e : LogEntry F) : Sent q e (q.trySend e) := by
  unfold trySend
  cases hconsumer : q.consumer with
  | exited => exact .refused
  | receiving =>
    by_cases hcapacity : q.capacity = 0
    · rw [if_pos hcapacity]
      exact .handed hconsumer hcapacity
    · rw [if_neg hcapacity]
      exact buffer_sent (by simp [hconsumer])
  | looping | received _ | flushing | flushed _ | leaving | gone _ =>
    exact buffer_sent (by simp [hconsumer])

/-- A step of the consumer. -/
inductive Consumed (fmt : Formats F) (q : LogQueueInner F) : LogQueueInner F → Prop
  | wait (at_top : q.consumer = .looping) (running : q.running = true) :
    Consumed fmt q { q with consumer := .receiving }
  | stopped (at_top : q.consumer = .looping) (running : q.running = false) :
    Consumed fmt q { q with consumer := .flushing }
  | receive (e : LogEntry F) (rest : List (LogEntry F)) (waiting : q.consumer = .receiving)
    (queue : q.queue = e :: rest) :
    Consumed fmt q { q with queue := rest, consumer := .received e, taken := q.taken ++ [e] }
  | timeOut (waiting : q.consumer = .receiving) (queue : q.queue = []) (connected : q.connected = true) :
    Consumed fmt q { q with consumer := .looping }
  | hungUp (waiting : q.consumer = .receiving) (queue : q.queue = [])
    (connected : q.connected = false) : Consumed fmt q { q with consumer := .flushing }
  | flush (e : LogEntry F) (rest : List (LogEntry F)) (flushing : q.consumer = .flushing)
    (queue : q.queue = e :: rest) :
    Consumed fmt q { q with queue := rest, consumer := .flushed e, taken := q.taken ++ [e] }
  | flushEnd (flushing : q.consumer = .flushing) (queue : q.queue = []) :
    Consumed fmt q { q with consumer := .leaving }
  | write (e : LogEntry F) (next : Consumer F)
    (held : q.consumer = .received e ∧ next = .looping ∨ q.consumer = .flushed e ∧ next = .flushing) :
    Consumed fmt q (q.write fmt e next)
  | exit (leaving : q.consumer = .leaving) :
    Consumed fmt q { q with consumer := .exited, queue := [], discarded := q.discarded ++ q.queue }

theorem consume_cases (h : q.consume fmt = some q') : Consumed fmt q q' := by
  unfold consume at h
  cases hconsumer : q.consumer with
  | looping =>
    simp only [hconsumer, Option.some.injEq] at h
    subst h
    split_ifs with hrunning
    · exact .wait hconsumer hrunning
    · exact .stopped hconsumer (eq_false_of_ne_true hrunning)
  | receiving =>
    simp only [hconsumer] at h
    cases hqueue : q.queue with
    | cons e rest =>
      simp only [hqueue, Option.some.injEq] at h
      subst h
      exact .receive e rest hconsumer hqueue
    | nil =>
      simp only [hqueue, Option.some.injEq] at h
      subst h
      rw [← hqueue]
      split_ifs with hconnected
      · exact .timeOut hconsumer hqueue hconnected
      · exact .hungUp hconsumer hqueue (eq_false_of_ne_true hconnected)
  | received e =>
    simp only [hconsumer, Option.some.injEq] at h
    subst h
    exact .write e .looping (.inl ⟨hconsumer, rfl⟩)
  | flushing =>
    simp only [hconsumer] at h
    cases hqueue : q.queue with
    | cons e rest =>
      simp only [hqueue, Option.some.injEq] at h
      subst h
      exact .flush e rest hconsumer hqueue
    | nil =>
      simp only [hqueue, Option.some.injEq] at h
      subst h
      rw [← hqueue]
      exact .flushEnd hconsumer hqueue
  | flushed e =>
    simp only [hconsumer, Option.some.injEq] at h
    subst h
    exact .write e .flushing (.inr ⟨hconsumer, rfl⟩)
  | leaving =>
    simp only [hconsumer, Option.some.injEq] at h
    subst h
    exact .exit hconsumer
  | exited | gone _ => simp [hconsumer] at h

theorem Sent.connected (h : Sent q e q') : q'.connected = q.connected := by
  cases h <;> rfl

theorem write_connected (fmt : Formats F) (q : LogQueueInner F) (e : LogEntry F)
    (next : Consumer F) : (q.write fmt e next).connected = q.connected := by
  unfold write
  split_ifs <;> rfl

theorem Consumed.connected (h : Consumed fmt q q') : q'.connected = q.connected := by
  cases h with
  | write e next => exact write_connected fmt q e next
  | _ => rfl

/-! ## One queue -/

structure Sound (fmt : Formats F) (q : LogQueueInner F) : Prop where
  bounded : q.queue.length ≤ q.capacity
  accounted : q.accepted = q.taken ++ q.queue ++ q.discarded
  written : ∃ prior, q.taken = prior ++ q.consumer.holding ∧
    q.written.Sublist (prior.map (·.formatColored fmt))
  discarded : q.consumer = .exited ∧ q.queue = [] ∨ q.discarded = []
  ended : q.consumer.ending = true → q.running = true → q.connected = false
  drained : q.consumer.finished = true → q.running = true → q.queue = [] ∧ q.discarded = []

theorem start_sound (config : LogConfig) : Sound fmt (.start config) :=
  ⟨Nat.zero_le _, rfl, ⟨[], rfl, .slnil⟩, .inr rfl, by simp [start, Consumer.ending],
    by simp [start, Consumer.finished]⟩

theorem finished_ending {consumer : Consumer F} (h : consumer.finished = true) :
    consumer.ending = true := by
  cases consumer with
  | leaving | exited => rfl
  | _ => cases h

theorem Sound.accounted_open (h : Sound fmt q) (hopen : q.consumer ≠ .exited) :
    q.accepted = q.taken ++ q.queue ∧ q.discarded = [] := by
  have hnone := h.discarded.resolve_left fun hexited => hopen hexited.1
  refine ⟨?_, hnone⟩
  rw [h.accounted, hnone, List.append_nil]

theorem Sent.sound (hsent : Sent q e q') (h : Sound fmt q) (hconnected : q.connected = true) :
    Sound fmt q' := by
  have hrunning : q.consumer.ending = true → q.running = true → False := by
    intro hending hrunning
    rw [h.ended hending hrunning] at hconnected
    cases hconnected
  cases hsent with
  | refused => exact h
  | buffered hopen hroom =>
    obtain ⟨haccepted, hnone⟩ := h.accounted_open hopen
    refine ⟨?_, ?_, h.written, .inr hnone, h.ended, fun hfinished hrun => ?_⟩
    · rw [List.length_append, List.length_singleton]
      exact hroom
    · simp only [haccepted, hnone, List.append_assoc, List.append_nil]
    · exact absurd hrun (hrunning (finished_ending hfinished))
  | handed hwaiting hcapacity =>
    have hqueue : q.queue = [] := by
      have hbound := h.bounded
      rw [hcapacity] at hbound
      exact List.length_eq_zero_iff.mp (Nat.le_zero.mp hbound)
    obtain ⟨haccepted, hnone⟩ := h.accounted_open (by simp [hwaiting])
    obtain ⟨prior, htaken, hwritten⟩ := h.written
    rw [hwaiting] at htaken
    refine ⟨h.bounded, ?_, ⟨prior, ?_, hwritten⟩, .inr hnone, by simp [Consumer.ending],
      by simp [Consumer.finished]⟩
    · simp only [haccepted, hqueue, hnone, List.append_nil]
    · simpa [Consumer.holding] using htaken

theorem write_eq (fmt : Formats F) (q : LogQueueInner F) (e : LogEntry F) (next : Consumer F) :
    ∃ line, q.write fmt e next = { q with consumer := next, written := q.written ++ line } ∧
      line.Sublist [e.formatColored fmt] ∧
      (q.config.level ≤ e.level → line = [e.formatColored fmt]) := by
  unfold write
  split_ifs with hlevel
  · exact ⟨_, rfl, .refl _, fun _ => rfl⟩
  · refine ⟨[], by rw [List.append_nil], List.nil_sublist _, fun hle => absurd hle hlevel⟩

/-- The consumer goes on without the channel. -/
theorem Sound.goto (h : Sound fmt q) {next : Consumer F} (hopen : q.consumer ≠ .exited)
    (hholding : next.holding = q.consumer.holding) (hfinished : next.finished = false)
    (hending : next.ending = true → q.running = true → q.connected = false) :
    Sound fmt { q with consumer := next } := by
  obtain ⟨prior, htaken, hwritten⟩ := h.written
  refine ⟨h.bounded, h.accounted, ⟨prior, ?_, hwritten⟩, .inr (h.accounted_open hopen).2, hending,
    fun h' => absurd h' (by simp [hfinished])⟩
  rw [hholding]
  exact htaken

/-- The consumer takes the first entry. -/
theorem Sound.take (h : Sound fmt q) {e : LogEntry F} {rest : List (LogEntry F)} {next : Consumer F}
    (hqueue : q.queue = e :: rest) (hnothing : q.consumer.holding = []) (hopen : q.consumer ≠ .exited)
    (hholding : next.holding = [e]) (hfinished : next.finished = false)
    (hending : next.ending = true → q.running = true → q.connected = false) :
    Sound fmt { q with queue := rest, consumer := next, taken := q.taken ++ [e] } := by
  obtain ⟨prior, htaken, hwritten⟩ := h.written
  obtain ⟨haccepted, hnone⟩ := h.accounted_open hopen
  have hbound := h.bounded
  rw [hqueue, List.length_cons] at hbound
  rw [hnothing, List.append_nil] at htaken
  refine ⟨Nat.le_of_succ_le hbound, ?_, ⟨q.taken, ?_, ?_⟩, .inr hnone, hending,
    fun h' => absurd h' (by simp [hfinished])⟩
  · simp only [haccepted, hqueue, hnone, List.append_assoc, List.singleton_append, List.append_nil]
  · rw [hholding]
  · rw [htaken]
    exact hwritten

theorem Consumed.sound (hconsumed : Consumed fmt q q') (h : Sound fmt q) : Sound fmt q' := by
  cases hconsumed with
  | wait hat hrunning =>
    exact h.goto (by simp [hat]) (by rw [hat]; rfl) rfl (by simp [Consumer.ending])
  | stopped hat hrunning =>
    exact h.goto (by simp [hat]) (by rw [hat]; rfl) rfl (by simp [hrunning])
  | timeOut hat hqueue hconnected =>
    exact h.goto (by simp [hat]) (by rw [hat]; rfl) rfl (by simp [Consumer.ending])
  | hungUp hat hqueue hconnected =>
    exact h.goto (by simp [hat]) (by rw [hat]; rfl) rfl fun _ _ => hconnected
  | receive e rest hat hqueue =>
    exact h.take hqueue (by rw [hat]; rfl) (by simp [hat]) rfl rfl (by simp [Consumer.ending])
  | flush e rest hat hqueue =>
    exact h.take hqueue (by rw [hat]; rfl) (by simp [hat]) rfl rfl
      fun _ => h.ended (by rw [hat]; rfl)
  | flushEnd hat hqueue =>
    obtain ⟨haccepted, hnone⟩ := h.accounted_open (by simp [hat])
    obtain ⟨prior, htaken, hwritten⟩ := h.written
    rw [hat] at htaken
    exact ⟨h.bounded, h.accounted, ⟨prior, htaken, hwritten⟩, .inr hnone,
      fun _ => h.ended (by rw [hat]; rfl), fun _ _ => ⟨hqueue, hnone⟩⟩
  | write e next hheld =>
    obtain ⟨line, heq, hline, -⟩ := write_eq fmt q e next
    have hplaces : q.consumer.holding = [e] ∧ next.holding = [] ∧ q.consumer ≠ .exited ∧
        next.finished = false ∧ next.ending = q.consumer.ending := by
      rcases hheld with ⟨hat, rfl⟩ | ⟨hat, rfl⟩ <;>
        simp [hat, Consumer.holding, Consumer.finished, Consumer.ending]
    obtain ⟨hholding, hnext, hopen, hfinished, hending⟩ := hplaces
    obtain ⟨haccepted, hnone⟩ := h.accounted_open hopen
    obtain ⟨prior, htaken, hwritten⟩ := h.written
    rw [heq]
    refine ⟨h.bounded, h.accounted, ⟨q.taken, ?_, ?_⟩, .inr hnone, ?_, ?_⟩
    · rw [hnext, List.append_nil]
    · rw [htaken, hholding, List.map_append]
      exact hwritten.append hline
    · exact fun h' => h.ended (hending ▸ h')
    · exact fun h' => absurd h' (by simp [hfinished])
  | exit hat =>
    obtain ⟨haccepted, hnone⟩ := h.accounted_open (by simp [hat])
    obtain ⟨prior, htaken, hwritten⟩ := h.written
    rw [hat] at htaken
    refine ⟨Nat.zero_le _, ?_, ⟨prior, htaken, hwritten⟩, .inl ⟨rfl, rfl⟩,
      fun _ => h.ended (by rw [hat]; rfl), fun _ hrunning => ⟨rfl, ?_⟩⟩
    · simp only [haccepted, hnone, List.append_nil, List.nil_append]
    · rw [hnone, (h.drained (by rw [hat]; rfl) hrunning).1, List.append_nil]

theorem forked_eq (q : LogQueueInner F) :
    q.consumer = .exited ∧ q.forked = q ∨
    q.consumer ≠ .exited ∧ q.forked = { q with consumer := .gone q.consumer.holding } := by
  unfold forked
  cases q.consumer with
  | exited => exact .inl ⟨rfl, rfl⟩
  | _ => exact .inr ⟨by simp, rfl⟩

theorem Sound.forked (h : Sound fmt q) : Sound fmt q.forked := by
  rcases q.forked_eq with ⟨-, heq⟩ | ⟨hopen, heq⟩
  · rw [heq]
    exact h
  · rw [heq]
    exact h.goto hopen rfl rfl (by simp [Consumer.ending])

theorem Turn.sound {calm : Prop} (hturn : Turn fmt calm q q') (h : Sound fmt q) : Sound fmt q' := by
  cases hturn with
  | keep => exact h
  | configure config update =>
    exact ⟨h.bounded, h.accounted, h.written, h.discarded, h.ended, h.drained⟩
  | stop =>
    exact ⟨h.bounded, h.accounted, h.written, h.discarded, by simp, by simp⟩
  | disconnect =>
    exact ⟨h.bounded, h.accounted, h.written, h.discarded, fun _ _ => rfl, h.drained⟩
  | send e hconnected hlevel => exact (trySend_sent q e).sound h hconnected
  | consume hconsume => exact (consume_cases hconsume).sound h
  | fork => exact h.forked

end LogQueueInner

/-! ## All queues -/

namespace Task

def isUpdate : Task F → Bool
  | .updateConfig _ => true
  | _ => false

/-- The queue that a thread sends to is the one in the global. -/
def Placed (current : Option Nat) : Task F → Prop
  | .sending i _ => current = some i
  | _ => True

def Calm (qs : List (LogQueueInner F)) : Task F → Prop
  | .updateConfig _ => False
  | .sending i e => ∃ q, qs[i]? = some q ∧ q.config.level ≤ e.level
  | _ => True

theorem Calm.of_idle {qs : List (LogQueueInner F)} {task : Task F} (h : task.isSending = false)
    (h' : task.isUpdate = false) : task.Calm qs := by
  cases task with
  | sending i e => cases h
  | updateConfig config => cases h'
  | _ => trivial

theorem Placed.of_not_sending {current : Option Nat} {task : Task F} (h : task.isSending = false) :
    task.Placed current := by
  cases task with
  | sending i e => cases h
  | _ => trivial

/-- The step of a thread. -/
inductive Move (g : Globals F) : Task F → Globals F → Task F → Prop
  | look {task task' : Task F} (idle : task.isSending = false) (idle' : task'.isSending = false)
    (noUpdate : task'.isUpdate = false) : Move g task g task'
  | accept {e : LogEntry F} {i : Nat} {q : LogQueueInner F} (current : g.current = some i)
    (queue : g.queues[i]? = some q) (level : q.config.level ≤ e.level) :
    Move g (.logEntry e) { g with readers := g.readers + 1 } (.sending i e)
  | send (i : Nat) (e : LogEntry F) :
    Move g (.sending i e)
      { g with queues := g.queues.modify i (·.trySend e), readers := g.readers - 1 } .returned
  | configure (config : LogConfig) :
    Move g (.updateConfig config) (g.modifyCurrent fun q => { q with config := config }) .returned
  | stop (next : Option LogConfig) :
    Move g (.stop next) (g.modifyCurrent fun q => { q with running := false }) (.disconnect next)
  | takeAway {task task' : Task F} (free : g.readers = 0) (idle : task.isSending = false)
    (idle' : task'.isSending = false) (noUpdate : task'.isUpdate = false) :
    Move g task g.takeAway task'
  | install (config : LogConfig) (free : g.readers = 0) :
    Move g (.install config) (g.install config) .returned

variable {g g' : Globals F} {task task' : Task F} {i : Nat} {turn : Unit}

theorem whenFree_eq_some {r : Globals F × Task F} (h : whenFree g g' task = some r) :
    g.readers = 0 ∧ r = (g', task) := by
  unfold whenFree at h
  split_ifs at h with hfree
  exact ⟨hfree, (Option.some.inj h).symm⟩

theorem next_move (h : next i g task turn = some (g', task')) : Move g task g' task' := by
  cases task with
  | logRequest now method path requestId =>
    simp only [next] at h
    cases hinner : g.inner with
    | none =>
      simp only [hinner, Option.some.injEq, Prod.mk.injEq] at h
      obtain ⟨rfl, rfl⟩ := h
      exact .look rfl rfl rfl
    | some q =>
      simp only [hinner] at h
      split_ifs at h <;> cases h <;> exact .look rfl rfl rfl
  | logResponse now method path status durationMs requestId =>
    simp only [next] at h
    cases hinner : g.inner with
    | none =>
      simp only [hinner, Option.some.injEq, Prod.mk.injEq] at h
      obtain ⟨rfl, rfl⟩ := h
      exact .look rfl rfl rfl
    | some q =>
      simp only [hinner] at h
      split_ifs at h <;> cases h <;> exact .look rfl rfl rfl
  | logEntry e =>
    simp only [next] at h
    split at h
    · rename_i i q hcurrent hinner
      split_ifs at h with hlevel
      · cases h
        rw [Globals.inner, hcurrent] at hinner
        exact .accept hcurrent hinner hlevel
      · cases h
        exact .look rfl rfl rfl
    · cases h
      exact .look rfl rfl rfl
  | sending i e =>
    cases h
    exact .send i e
  | updateConfig config =>
    cases h
    exact .configure config
  | stop next =>
    cases h
    exact .stop next
  | disconnect next =>
    obtain ⟨hfree, heq⟩ := whenFree_eq_some h
    obtain ⟨rfl, rfl⟩ := Prod.mk.inj heq
    cases next with
    | none => exact .takeAway hfree rfl rfl rfl
    | some config => exact .takeAway hfree rfl rfl rfl
  | install config =>
    obtain ⟨hfree, heq⟩ := whenFree_eq_some h
    obtain ⟨rfl, rfl⟩ := Prod.mk.inj heq
    exact .install config hfree
  | reinit =>
    simp only [next] at h
    cases hinner : g.inner with
    | none =>
      simp only [hinner, Option.some.injEq, Prod.mk.injEq] at h
      obtain ⟨rfl, rfl⟩ := h
      exact .look rfl rfl rfl
    | some q =>
      simp only [hinner, Option.some.injEq, Prod.mk.injEq] at h
      obtain ⟨rfl, rfl⟩ := h
      exact .look rfl rfl rfl
  | abandon config =>
    obtain ⟨hfree, heq⟩ := whenFree_eq_some h
    obtain ⟨rfl, rfl⟩ := Prod.mk.inj heq
    exact .takeAway hfree rfl rfl rfl
  | returned => cases h

end Task

namespace System

variable {fmt : Formats F} {c c' : System F} {a : Action F}

/-- A new thread, the step of a thread or of a consumer, or a fork. -/
inductive Step (fmt : Formats F) (c : System F) : Action F → System F → Prop
  | call (call : Call F) : Step fmt c (.call call) ⟨c.shared, c.threads ++ [call.task]⟩
  | run {i : Nat} {task task' : Task F} {g' : Globals F} (thread : c.threads[i]? = some task)
    (move : Task.Move c.shared task g' task') : Step fmt c (.run i) ⟨g', c.threads.set i task'⟩
  | consume {i : Nat} {q q' : LogQueueInner F} (queue : c.shared.queues[i]? = some q)
    (consume : q.consume fmt = some q') :
    Step fmt c (.consume i) ⟨{ c.shared with queues := c.shared.queues.set i q' }, c.threads⟩
  | fork : Step fmt c .fork ⟨{ c.shared with queues := c.shared.queues.map (·.forked) }, []⟩

theorem step_cases (h : step fmt c a = some c') : Step fmt c a c' := by
  cases a with
  | call call =>
    cases h
    exact .call call
  | run i =>
    obtain ⟨task, g', task', hi, hnext, rfl⟩ := stepThread_eq_some.mp h
    exact .run hi (Task.next_move hnext)
  | consume i =>
    obtain ⟨q, hq, hstep⟩ := Option.bind_eq_some_iff.mp h
    obtain ⟨q', hconsume, rfl⟩ := Option.map_eq_some_iff.mp hstep
    exact .consume hq hconsume
  | fork =>
    cases h
    exact .fork

end System

end Hypern.Logging
