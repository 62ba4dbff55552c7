import Hypern.Lib.Lock

/-! `BlockingExecutor`: a caller of `map` or `run_parallel` sends all its work while it holds the
interpreter lock, and the workers need the lock after every receive. -/

namespace Hypern.Tasks.Blocking

open Lib

inductive Value
  | tuple (items : List Value)
  | list (items : List Value)
  | dict (id : Nat)
  | none
  | other (id : Nat)

structure WorkItem where
  callable : Value
  args : List Value
  kwargs : Option Nat

inductive TaskError
  | value (message : String)
  | cast (target : String)

/-- One element of the list that `run_parallel` is called with. -/
def parseTask : Value → Except TaskError WorkItem
  | .tuple (callable :: .tuple args :: rest) =>
    match rest with
    | [] => .ok ⟨callable, args, none⟩
    | .none :: _ => .ok ⟨callable, args, none⟩
    | .dict id :: _ => .ok ⟨callable, args, some id⟩
    | _ :: _ => .error (.cast "PyDict")
  | .tuple (_ :: _ :: _) => .error (.cast "PyTuple")
  | .tuple _ =>
    .error (.value "Each task must be (callable, args) or (callable, args, kwargs)")
  | _ => .error (.cast "PyTuple")

/-- What a caller does when its work is sent. -/
inductive Ending
  | returns
  | collects
  | fails (error : TaskError)

/-- The work sent before the first element that is no task. -/
def parseTasks : List Value → List WorkItem × Ending
  | [] => ([], .collects)
  | task :: tasks =>
    match parseTask task with
    | .ok work => (work :: (parseTasks tasks).1, (parseTasks tasks).2)
    | .error error => ([], .fails error)

def chunkOf (maxThreads total chunkSize : Nat) : Nat :=
  max (if chunkSize > 0 then chunkSize else (total + maxThreads * 4 - 1) / (maxThreads * 4)) 1

/-- The loop of `map` over its slices; every pass takes at least one item. -/
def chunks (chunk : Nat) (items : List Value) : (fuel start : Nat) → List (List Value)
  | 0, _ => []
  | fuel + 1, start =>
    if start < items.length then
      ((items.drop start).take (min (start + chunk) items.length - start)) ::
        chunks chunk items fuel (min (start + chunk) items.length)
    else []

/-- A call of one of the two methods. `wrapper` is the lambda that `map` evaluates once. -/
inductive Call
  | map (wrapper callable : Value) (items : List Value) (chunkSize : Nat)
  | runParallel (tasks : List Value)

def Call.plan (maxThreads : Nat) : Call → List WorkItem × Ending
  | .map wrapper callable items chunkSize =>
    if items = [] then ([], .returns)
    else ((chunks (chunkOf maxThreads items.length chunkSize) items items.length 0).map
      fun slice => ⟨wrapper, [callable, .list slice], none⟩, .collects)
  | .runParallel tasks => parseTasks tasks

/-- Work in the queue, with the receiver of the call it belongs to; work of earlier calls has
none here. -/
structure Entry where
  work : WorkItem
  slot : Option Nat

/-- `queueSize` zero stands for an unbounded queue. `delivered` are the receivers of the call
that have their result. -/
structure Pool where
  queueSize : Nat
  queue : List Entry
  gil : Option Nat
  delivered : List Nat

def Pool.hasRoom (g : Pool) : Prop := g.queueSize = 0 ∨ g.queue.length < g.queueSize

instance (g : Pool) : Decidable g.hasRoom := inferInstanceAs (Decidable (_ ∨ _))

/-- The caller, sending with the lock or waiting for results without it, and the places of
`worker_loop`: `starting`, `received` and `timedOut` wait for the lock, `attached` and
`executing` have it. -/
inductive Party
  | sending (left : List WorkItem) (slot : Nat) (ending : Ending)
  | collecting (slots : List Nat)
  | returned (error : Option TaskError)
  | starting
  | attached
  | polling
  | received (entry : Entry)
  | timedOut
  | executing (entry : Entry)

inductive Turn
  | run | timeout
  deriving DecidableEq

def Pool.acquire (g : Pool) (i : Nat) (p : Party) : Option (Pool × Party) :=
  if g.gil = none then some ({ g with gil := some i }, p) else none

def Party.next (i : Nat) (g : Pool) : Party → Turn → Option (Pool × Party)
  | .sending (work :: left) slot ending, .run =>
    if g.hasRoom then
      some ({ g with queue := g.queue ++ [⟨work, some slot⟩] }, .sending left (slot + 1) ending)
    else none
  | .sending [] _ .returns, .run => some (g, .returned none)
  | .sending [] slot .collects, .run =>
    some ({ g with gil := none }, .collecting (List.range slot))
  | .sending [] _ (.fails error), .run => some (g, .returned (some error))
  | .collecting (slot :: slots), .run =>
    if slot ∈ g.delivered then some (g, .collecting slots) else none
  | .collecting [], .run => g.acquire i (.returned none)
  | .starting, .run => g.acquire i .attached
  | .attached, .run => some ({ g with gil := none }, .polling)
  | .polling, .run =>
    match g.queue with
    | [] => none
    | entry :: queue => some ({ g with queue := queue }, .received entry)
  | .polling, .timeout => if g.queue = [] then some (g, .timedOut) else none
  | .received entry, .run => g.acquire i (.executing entry)
  | .timedOut, .run => g.acquire i .attached
  | .executing entry, .run =>
    some ({ g with delivered := entry.slot.toList ++ g.delivered }, .attached)
  | _, _ => none

/-- Where a worker may be while somebody else has the lock. -/
inductive Place
  | starting | polling | timedOut
  | received (work : WorkItem)

def Place.party : Place → Party
  | .starting => .starting
  | .polling => .polling
  | .timedOut => .timedOut
  | .received work => .received ⟨work, none⟩

/-- An executor at the time of a call: work of earlier calls may be in the queue and at the
workers. -/
structure Entered where
  queueSize : Nat
  queue : List WorkItem
  workers : List Place
  nonempty : workers ≠ []
  bounded : queueSize = 0 ∨ queue.length ≤ queueSize

abbrev System := Config Pool Party

def Party.isPolling : Party → Bool
  | .polling => true
  | _ => false

namespace System

def start (s : Entered) (call : Call) : System :=
  ⟨⟨s.queueSize, s.queue.map (⟨·, none⟩), some 0, []⟩,
    .sending (call.plan s.workers.length).1 0 (call.plan s.workers.length).2 ::
      s.workers.map Place.party⟩

def step (c : System) (a : Nat × Turn) : Option System := stepThread Party.next c a.1 a.2

/-- Until the call returns, some thread can go on. -/
def NoDeadlock (s : Entered) (call : Call) : Prop :=
  ∀ c, Reaches step (start s call) c →
    (∃ error, c.threads[0]? = some (.returned error)) ∨ ¬ Stuck Party.next c

/-- The work of the call, with what the waiting workers leave of the queue, fits into it. -/
def Fits (s : Entered) (call : Call) : Prop :=
  s.queueSize = 0 ∨ (call.plan s.workers.length).1.length +
    (s.queue.length - (s.workers.map Place.party).countP Party.isPolling) ≤ s.queueSize

end System

/-! ## The moves, one by one -/

namespace Party

def isCaller : Party → Bool
  | .sending _ _ _ => true
  | .collecting _ => true
  | .returned _ => true
  | _ => false

def isSending : Party → Bool
  | .sending _ _ _ => true
  | _ => false

/-- In a state that only a thread with the lock is in. -/
def isLocked : Party → Bool
  | .sending _ _ _ => true
  | .returned _ => true
  | .attached => true
  | .executing _ => true
  | _ => false

/-- Waiting for the lock. -/
def isWaiting : Party → Bool
  | .starting => true
  | .received _ => true
  | .timedOut => true
  | _ => false

end Party

/-- The moves that wait for the lock are taken together. -/
inductive Move (i : Nat) (g : Pool) : Party → Turn → Pool → Party → Prop
  | send {work : WorkItem} {left : List WorkItem} {slot : Nat} {ending : Ending} (h : g.hasRoom) :
      Move i g (.sending (work :: left) slot ending) .run
        { g with queue := g.queue ++ [⟨work, some slot⟩] } (.sending left (slot + 1) ending)
  | ret {slot : Nat} {ending : Ending} {error : Option TaskError} :
      Move i g (.sending [] slot ending) .run g (.returned error)
  | detach {slot : Nat} {slots : List Nat} {ending : Ending} :
      Move i g (.sending [] slot ending) .run { g with gil := none } (.collecting slots)
  | take {slot : Nat} {slots : List Nat} :
      Move i g (.collecting (slot :: slots)) .run g (.collecting slots)
  | acquire {p p' : Party} (h : g.gil = none) (hp : p.isLocked = false) (hp' : p'.isLocked = true)
      (hrole : p'.isCaller = p.isCaller) (hsending : p'.isSending = false) :
      Move i g p .run { g with gil := some i } p'
  | release : Move i g .attached .run { g with gil := none } .polling
  | receive {entry : Entry} {queue : List Entry} (h : g.queue = entry :: queue) :
      Move i g .polling .run { g with queue := queue } (.received entry)
  | timeOut (h : g.queue = []) : Move i g .polling .timeout g .timedOut
  | deliver {entry : Entry} {delivered : List Nat} :
      Move i g (.executing entry) .run { g with delivered := delivered } .attached

variable {i : Nat} {g g' : Pool} {p p' : Party} {turn : Turn}

theorem Pool.acquire_eq_some (h : g.acquire i p = some (g', p')) :
    g.gil = none ∧ g' = { g with gil := some i } ∧ p' = p := by
  unfold Pool.acquire at h
  split_ifs at h with hfree
  cases h
  exact ⟨hfree, rfl, rfl⟩

theorem Move.of_next (h : p.next i g turn = some (g', p')) : Move i g p turn g' p' := by
  unfold Party.next at h
  split at h
  · split_ifs at h with hroom
    cases h
    exact .send hroom
  · cases h
    exact .ret
  · cases h
    exact .detach
  · cases h
    exact .ret
  · split_ifs at h
    cases h
    exact .take
  · obtain ⟨hfree, rfl, rfl⟩ := Pool.acquire_eq_some h
    exact .acquire hfree rfl rfl rfl rfl
  · obtain ⟨hfree, rfl, rfl⟩ := Pool.acquire_eq_some h
    exact .acquire hfree rfl rfl rfl rfl
  · cases h
    exact .release
  · split at h
    · cases h
    · cases h
      exact .receive ‹_›
  · split_ifs at h with hempty
    cases h
    exact .timeOut hempty
  · obtain ⟨hfree, rfl, rfl⟩ := Pool.acquire_eq_some h
    exact .acquire hfree rfl rfl rfl rfl
  · obtain ⟨hfree, rfl, rfl⟩ := Pool.acquire_eq_some h
    exact .acquire hfree rfl rfl rfl rfl
  · cases h
    exact .deliver
  · cases h

/-! ## The invariant -/

/-- What a move does to the roles and the lock. -/
structure Keeps (i : Nat) (g : Pool) (p : Party) (g' : Pool) (p' : Party) : Prop where
  queueSize : g'.queueSize = g.queueSize
  caller : p'.isCaller = p.isCaller
  lock : LockMove Party.isLocked Party.isLocked i g.gil g'.gil p'

theorem Move.keeps (h : Move i g p turn g' p')
    (hmust : p.isLocked = true → g.gil = some i) (hmay : g.gil = some i → p.isLocked = true) :
    Keeps i g p g' p' := by
  cases h with
  | send _ => exact ⟨rfl, rfl, .keep (fun _ => hmust rfl) fun _ => rfl⟩
  | ret => exact ⟨rfl, rfl, .keep (fun _ => hmust rfl) fun _ => rfl⟩
  | detach => exact ⟨rfl, rfl, .release (hmust rfl) rfl⟩
  | take => exact ⟨rfl, rfl, .keep nofun hmay⟩
  | acquire hfree _ hp' hrole _ => exact ⟨rfl, hrole, .acquire hfree hp'⟩
  | release => exact ⟨rfl, rfl, .release (hmust rfl) rfl⟩
  | receive _ => exact ⟨rfl, rfl, .keep nofun hmay⟩
  | timeOut _ => exact ⟨rfl, rfl, .keep nofun hmay⟩
  | deliver => exact ⟨rfl, rfl, .keep (fun _ => hmust rfl) fun _ => rfl⟩

namespace System

variable {c c' : System} {bound : Nat}

/-- While the caller is sending, what it has yet to send fits into the queue once every polling
worker has taken its share. -/
structure Inv (bound : Nat) (c : System) : Prop where
  size : 1 < c.threads.length
  queueSize : c.shared.queueSize = bound
  caller : ∀ (i : Nat) p, c.threads[i]? = some p → (p.isCaller = true ↔ i = 0)
  lock : LockInv Party.isLocked Party.isLocked c.shared.gil c.threads
  room : ∀ left slot ending, c.threads[0]? = some (.sending left slot ending) → bound = 0 ∨
    left.length + (c.shared.queue.length - c.threads.countP Party.isPolling) ≤ bound

/-- A move of the caller. -/
theorem room_caller (h : Inv bound c) (hp : c.threads[0]? = some p)
    (hmove : Move 0 c.shared p turn g' p') {left : List WorkItem} {slot : Nat} {ending : Ending}
    (hp' : p' = .sending left slot ending) : bound = 0 ∨
      left.length + (g'.queue.length - (c.threads.set 0 p').countP Party.isPolling) ≤ bound := by
  have hset := countP_set_add Party.isPolling hp p'
  cases hmove with
  | @send work left' slot' ending' _ =>
    cases hp'
    refine (h.room _ _ _ hp).imp_right fun hroom => ?_
    simp only [Party.isPolling, List.length_append, List.length_cons, List.length_nil,
      Bool.false_eq_true, if_false, Nat.add_zero] at hset hroom ⊢
    omega
  | acquire _ _ _ _ hsending =>
    rw [hp'] at hsending
    cases hsending
  | ret | detach | take | release | receive _ | timeOut _ | deliver => cases hp'

/-- A move of a worker while the caller is sending: it can only take from the queue or time out. -/
theorem room_worker (h : Inv bound c) (hi : i ≠ 0) (hp : c.threads[i]? = some p)
    (hmove : Move i c.shared p turn g' p') {left : List WorkItem} {slot : Nat} {ending : Ending}
    (hsending : c.threads[0]? = some (.sending left slot ending)) : bound = 0 ∨
      left.length + (g'.queue.length - (c.threads.set i p').countP Party.isPolling) ≤ bound := by
  have hgil : c.shared.gil = some 0 := h.lock.must 0 _ hsending rfl
  have hnot : p.isLocked = false := by
    rw [← Bool.not_eq_true]
    intro hlocked
    have hmine := h.lock.must i p hp hlocked
    rw [hgil] at hmine
    exact hi (Option.some.inj hmine).symm
  have hset := countP_set_add Party.isPolling hp p'
  have hroom := h.room _ _ _ hsending
  cases hmove with
  | send _ | ret | detach | release | deliver => cases hnot
  | take => exact absurd ((h.caller i _ hp).mp rfl) hi
  | acquire hfree =>
    rw [hgil] at hfree
    cases hfree
  | receive hqueue =>
    refine hroom.imp_right fun hroom => ?_
    rw [hqueue] at hroom
    simp only [Party.isPolling, List.length_cons, Bool.false_eq_true, if_true, if_false,
      Nat.add_zero] at hset hroom ⊢
    omega
  | timeOut hempty =>
    refine hroom.imp_right fun hroom => ?_
    rw [hempty] at hroom ⊢
    simp only [List.length_nil, Nat.zero_sub] at hroom ⊢
    exact hroom

theorem inv_step {a : Nat × Turn} (h : Inv bound c) (hstep : step c a = some c') :
    Inv bound c' := by
  obtain ⟨i, turn⟩ := a
  change stepThread Party.next c i turn = some c' at hstep
  obtain ⟨p, g', p', hp, hnext, rfl⟩ := stepThread_eq_some.mp hstep
  have hmove := Move.of_next hnext
  have hkeeps := hmove.keeps (h.lock.must i p hp) (h.lock.may_of_eq hp)
  refine ⟨?_, hkeeps.queueSize.trans h.queueSize, ?_, h.lock.move hp hkeeps.lock,
    fun left slot ending hsending => ?_⟩
  · rw [List.length_set]
    exact h.size
  · refine forall_getElem?_set h.caller ?_
    rw [hkeeps.caller]
    exact h.caller i p hp
  · rcases getElem?_set_cases hsending with ⟨rfl, heq⟩ | ⟨hne, hold⟩
    · exact room_caller h hp hmove heq.symm
    · exact room_worker h hne.symm hp hmove hold

theorem inv_start {s : Entered} {call : Call} (h : Fits s call) :
    Inv s.queueSize (start s call) := by
  have hworker : ∀ {i : Nat} {p : Party}, (s.workers.map Place.party)[i]? = some p →
      p.isCaller = false ∧ p.isLocked = false := by
    intro i p hp
    obtain ⟨place, -, rfl⟩ := List.mem_map.mp (List.mem_of_getElem? hp)
    cases place <;> exact ⟨rfl, rfl⟩
  refine ⟨?_, rfl, fun i p hp => ?_, ⟨fun i p hp hlocked => ?_, fun i hi => ?_⟩,
    fun left slot ending hsending => ?_⟩
  · change 1 < (s.workers.map Place.party).length + 1
    rw [List.length_map]
    exact Nat.succ_lt_succ (List.length_pos_of_ne_nil s.nonempty)
  · cases i with
    | zero =>
      cases hp
      exact iff_of_true rfl rfl
    | succ i =>
      rw [(hworker hp).1]
      exact iff_of_false Bool.false_ne_true (Nat.succ_ne_zero i)
  · cases i with
    | zero => rfl
    | succ i =>
      rw [(hworker hp).2] at hlocked
      cases hlocked
  · cases hi
    exact ⟨_, rfl, rfl⟩
  · cases hsending
    refine h.imp_right fun hfits => ?_
    change _ + ((s.queue.map _).length - (_ :: s.workers.map Place.party).countP Party.isPolling) ≤ _
    rw [List.length_map, List.countP_cons_of_neg Bool.false_ne_true]
    exact hfits

/-! ## Progress -/

/-- A worker without the lock goes on when the lock is free. -/
theorem worker_moves (hgil : g.gil = none) (hcaller : p.isCaller = false)
    (hlocked : p.isLocked = false) : ∃ turn r, p.next i g turn = some r := by
  cases p with
  | sending | collecting | returned => cases hcaller
  | attached | executing => cases hlocked
  | starting => exact ⟨.run, _, if_pos hgil⟩
  | received entry => exact ⟨.run, _, if_pos hgil⟩
  | timedOut => exact ⟨.run, _, if_pos hgil⟩
  | polling =>
    cases hqueue : g.queue with
    | nil => exact ⟨.timeout, _, if_pos hqueue⟩
    | cons entry queue =>
      refine ⟨.run, ?_⟩
      simp only [Party.next, hqueue]
      exact ⟨_, rfl⟩

/-- The caller goes on sending unless the queue is full. -/
theorem sending_moves {left : List WorkItem} {slot : Nat} {ending : Ending}
    (h : left = [] ∨ g.hasRoom) :
    ∃ turn r, (Party.sending left slot ending).next i g turn = some r := by
  refine ⟨.run, ?_⟩
  cases left with
  | nil => cases ending <;> exact ⟨_, rfl⟩
  | cons work left =>
    have hroom := h.resolve_left nofun
    exact ⟨_, if_pos hroom⟩

theorem returned_of_stuck (h : Inv bound c) (hstuck : Stuck Party.next c) :
    ∃ error, c.threads[0]? = some (.returned error) := by
  have hblocked : ∀ (i : Nat) p, c.threads[i]? = some p →
      ¬ ∃ turn r, p.next i c.shared turn = some r := fun _ _ => hstuck.no_move
  obtain ⟨p, hp⟩ : ∃ p, c.threads[0]? = some p :=
    ⟨_, List.getElem?_eq_getElem (Nat.lt_trans Nat.one_pos h.size)⟩
  obtain ⟨q, hq⟩ : ∃ q, c.threads[1]? = some q := ⟨_, List.getElem?_eq_getElem h.size⟩
  have hcaller := (h.caller 0 p hp).mpr rfl
  cases p with
  | attached | executing | starting | received | timedOut | polling => cases hcaller
  | returned error => exact ⟨error, hp⟩
  | sending left slot ending =>
    -- the queue is full, so nobody polls, and there was room for the rest
    exfalso
    have hfull : left ≠ [] ∧ ¬ c.shared.hasRoom := by
      rw [← not_or]
      exact fun hmoves => hblocked 0 _ hp (sending_moves hmoves)
    obtain ⟨hleft, hroom⟩ := hfull
    unfold Pool.hasRoom at hroom
    rw [not_or, h.queueSize] at hroom
    have hpolling : c.threads.countP Party.isPolling = 0 := by
      rw [List.countP_eq_zero]
      intro x hx hpolls
      obtain ⟨j, hj⟩ := List.mem_iff_getElem?.mp hx
      cases x with
      | polling =>
        refine hblocked j _ hj ⟨.run, ?_⟩
        cases hqueue : c.shared.queue with
        | nil =>
          rw [hqueue] at hroom
          exact absurd (Nat.pos_of_ne_zero hroom.1) hroom.2
        | cons entry queue =>
          simp only [Party.next, hqueue]
          exact ⟨_, rfl⟩
      | sending | collecting | returned | attached | executing | starting | received | timedOut =>
        cases hpolls
    have hbound := (h.room left slot ending hp).resolve_left hroom.1
    rw [hpolling] at hbound
    have hpos := List.length_pos_of_ne_nil hleft
    omega
  | collecting slots =>
    exfalso
    cases hgil : c.shared.gil with
    | none =>
      have hqcaller : q.isCaller = false := by
        rw [← Bool.not_eq_true, h.caller 1 q hq]
        exact Nat.one_ne_zero
      have hqlocked : q.isLocked = false := by
        rw [← Bool.not_eq_true]
        intro hlocked
        have hmine := h.lock.must 1 q hq hlocked
        rw [hgil] at hmine
        cases hmine
      exact hblocked 1 q hq (worker_moves hgil hqcaller hqlocked)
    | some j =>
      obtain ⟨x, hx, hlocked⟩ := h.lock.may j hgil
      cases x with
      | sending | returned =>
        obtain rfl := (h.caller j _ hx).mp rfl
        cases hp.symm.trans hx
      | attached => exact hblocked j _ hx ⟨.run, _, rfl⟩
      | executing entry => exact hblocked j _ hx ⟨.run, _, rfl⟩
      | collecting | starting | received | timedOut | polling => cases hlocked

/-! ## The deadlock -/

theorem reaches_head {rest : List Party} (hnext : p.next 0 g turn = some (g', p'))
    (h : Reaches step ⟨g', p' :: rest⟩ c) : Reaches step ⟨g, p :: rest⟩ c :=
  .head (a := (0, turn)) (stepThread_append [] rest hnext) h

theorem reaches_middle {before after : List Party}
    (hnext : p.next before.length g turn = some (g', p'))
    (h : Reaches step ⟨g', before ++ p' :: after⟩ c) :
    Reaches step ⟨g, before ++ p :: after⟩ c :=
  .head (a := (before.length, turn)) (stepThread_append before after hnext) h

/-- A polling worker takes its share of the queue, or times out on an empty one. -/
theorem polling_leaves (g : Pool) : ∃ turn p' queue, ∀ i,
    Party.polling.next i g turn = some ({ g with queue := queue }, p') ∧ p'.isWaiting = true ∧
      queue.length = g.queue.length - 1 := by
  cases hqueue : g.queue with
  | nil =>
    refine ⟨.timeout, .timedOut, g.queue, fun i => ⟨if_pos hqueue, rfl, ?_⟩⟩
    rw [hqueue]
    rfl
  | cons entry queue =>
    refine ⟨.run, .received entry, queue, fun i => ⟨?_, rfl, rfl⟩⟩
    simp only [Party.next, hqueue]

/-- While the caller has the lock, all workers come to wait for it. -/
theorem reaches_waiting (before : List Party) (places : List Place) (g : Pool) :
    ∃ waiting queue, Reaches step ⟨g, before ++ places.map Place.party⟩
        ⟨{ g with queue := queue }, before ++ waiting⟩ ∧
      (∀ p ∈ waiting, p.isWaiting = true) ∧
      queue.length = g.queue.length - (places.map Place.party).countP Party.isPolling := by
  induction places generalizing before g with
  | nil => exact ⟨[], g.queue, .refl _, nofun, rfl⟩
  | cons place places ih =>
    -- the worker is at `p'` when the others are looked at
    have hthen : ∀ (p' : Party) (queue : List Entry), p'.isWaiting = true →
        ∃ waiting queue', Reaches step
            ⟨{ g with queue := queue }, before ++ p' :: places.map Place.party⟩
            ⟨{ g with queue := queue' }, before ++ waiting⟩ ∧
          (∀ p ∈ waiting, p.isWaiting = true) ∧
          queue'.length = queue.length - (places.map Place.party).countP Party.isPolling := by
      intro p' queue hwaits
      obtain ⟨waiting, queue', hreach, hwaiting, hlength⟩ :=
        ih (before ++ [p']) { g with queue := queue }
      refine ⟨p' :: waiting, queue', ?_, List.forall_mem_cons.mpr ⟨hwaits, hwaiting⟩, hlength⟩
      rw [List.append_assoc, List.append_assoc] at hreach
      exact hreach
    cases place with
    | starting => exact hthen _ g.queue rfl
    | timedOut => exact hthen _ g.queue rfl
    | received work => exact hthen _ g.queue rfl
    | polling =>
      obtain ⟨turn, p', queue, hleave⟩ := polling_leaves g
      obtain ⟨hnext, hwaits, hlength⟩ := hleave before.length
      obtain ⟨waiting, queue', hreach, hwaiting, hlength'⟩ := hthen p' queue hwaits
      refine ⟨waiting, queue', reaches_middle hnext hreach, hwaiting, ?_⟩
      rw [hlength', hlength, List.map_cons, List.countP_cons_of_pos rfl]
      omega

/-- Nobody takes from the queue any more, so the caller fills it. -/
theorem reaches_full (room : Nat) (left : List WorkItem) (slot : Nat) (ending : Ending)
    (rest : List Party) (hleft : room < left.length) (hsize : g.queueSize ≠ 0)
    (hroom : g.queue.length + room = g.queueSize) :
    ∃ queue work left' slot', Reaches step ⟨g, .sending left slot ending :: rest⟩
        ⟨{ g with queue := queue }, .sending (work :: left') slot' ending :: rest⟩ ∧
      queue.length = g.queueSize := by
  induction room generalizing g left slot with
  | zero =>
    cases left with
    | nil => cases hleft
    | cons work left => exact ⟨g.queue, work, left, slot, .refl _, hroom⟩
  | succ room ih =>
    cases left with
    | nil => cases hleft
    | cons work left =>
      have hnow : g.hasRoom := by
        refine .inr ?_
        omega
      have hsend : (Party.sending (work :: left) slot ending).next 0 g .run =
          some ({ g with queue := g.queue ++ [⟨work, some slot⟩] },
            .sending left (slot + 1) ending) := if_pos hnow
      have hlater : (g.queue ++ [Entry.mk work (some slot)]).length + room = g.queueSize := by
        rw [List.length_append, List.length_singleton]
        omega
      obtain ⟨queue, work', left', slot', hreach, hlength⟩ :=
        ih (g := { g with queue := g.queue ++ [⟨work, some slot⟩] }) left (slot + 1)
          (Nat.lt_of_succ_lt_succ hleft) hsize hlater
      exact ⟨queue, work', left', slot', reaches_head hsend hreach, hlength⟩

/-- The caller waits for room while it has the lock, and the workers wait for the lock. -/
theorem stuck_of_full (hgil : g.gil = some 0) (hfull : ¬ g.hasRoom) {waiting : List Party}
    (hwaiting : ∀ p ∈ waiting, p.isWaiting = true) (work : WorkItem) (left : List WorkItem)
    (slot : Nat) (ending : Ending) :
    Stuck Party.next ⟨g, .sending (work :: left) slot ending :: waiting⟩ := by
  have hlock : ∀ (i : Nat) q, g.acquire i q = none := by
    intro i q
    unfold Pool.acquire
    rw [hgil]
    rfl
  refine stuck_iff.mpr fun i p hp turn => ?_
  rcases List.mem_cons.mp (List.mem_of_getElem? hp) with rfl | hmem
  · cases turn with
    | run => exact if_neg hfull
    | timeout => rfl
  · have hwaits := hwaiting p hmem
    cases p with
    | starting | received | timedOut =>
      cases turn with
      | run => exact hlock i _
      | timeout => rfl
    | sending | collecting | returned | attached | executing | polling => cases hwaits

theorem not_noDeadlock_of_not_fits {s : Entered} {call : Call} (h : ¬ Fits s call) :
    ¬ NoDeadlock s call := by
  intro hnone
  unfold Fits at h
  rw [not_or, Nat.not_le] at h
  obtain ⟨hsize, hlt⟩ := h
  have hbounded := s.bounded.resolve_left hsize
  obtain ⟨waiting, queue, hwait, hwaiting, hlength⟩ := reaches_waiting
    [.sending (call.plan s.workers.length).1 0 (call.plan s.workers.length).2] s.workers
    ⟨s.queueSize, s.queue.map (⟨·, none⟩), some 0, []⟩
  rw [List.length_map] at hlength
  have hroom : queue.length + (s.queueSize - queue.length) = s.queueSize := by omega
  obtain ⟨queue', work, left, slot, hfill, hfull⟩ :=
    reaches_full (g := ⟨s.queueSize, queue, some 0, []⟩) (s.queueSize - queue.length)
      (call.plan s.workers.length).1 0 (call.plan s.workers.length).2 waiting (by omega) hsize hroom
  have hnone' : ¬ Pool.hasRoom ⟨s.queueSize, queue', some 0, []⟩ := by
    rintro (hzero | hlt)
    · exact hsize hzero
    · exact absurd hfull (Nat.ne_of_lt hlt)
  have hstuck := stuck_of_full rfl hnone' hwaiting work left slot (call.plan s.workers.length).2
  rcases hnone _ (hwait.trans hfill) with ⟨error, herror⟩ | hmoves
  · cases herror
  · exact hmoves hstuck

theorem noDeadlock_iff_fits (s : Entered) (call : Call) : NoDeadlock s call ↔ Fits s call := by
  constructor
  · intro h
    by_contra hnot
    exact not_noDeadlock_of_not_fits hnot h
  · intro h c hreach
    have hinv := hreach.invariant (fun _ _ _ => inv_step) (inv_start h)
    rw [or_iff_not_imp_right, not_not]
    exact returned_of_stuck hinv

/-- A fresh executor with one thread and one place. -/
def small : Entered := ⟨1, [], [.starting], nofun, .inr (Nat.zero_le 1)⟩

/-- Two chunks are too many: the worker has not come to poll yet. -/
theorem map_two_items_deadlock :
    ¬ NoDeadlock small (.map (.other 0) (.other 1) [.other 2, .other 3] 1) := by
  refine not_noDeadlock_of_not_fits ?_
  unfold Fits
  decide

end System

end Hypern.Tasks.Blocking
