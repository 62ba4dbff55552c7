import Hypern.Logging.Queue

/-! What becomes of logged entries, in every run of the functions of the log queue and its consumer
threads. The lock of the global keeps the sender alive while a thread sends. -/

namespace Hypern.Logging

open Lib

variable {F : Type} {fmt : Formats F}

namespace Globals

/-- The sender of queue `i` is there. -/
def live (g : Globals F) (i : Nat) : Bool := ((g.queues[i]?).map (·.connected)).getD false

variable {g : Globals F} {i j : Nat}

theorem live_of_getElem? {q : LogQueueInner F} (h : g.queues[i]? = some q) :
    g.live i = q.connected := by
  rw [live, h]
  rfl

theorem live_modify {qs : List (LogQueueInner F)} (f : LogQueueInner F → LogQueueInner F)
    (hf : ∀ q, g.queues[i]? = some q → (f q).connected = q.connected)
    (hqs : qs = g.queues.modify i f) (current : Option Nat) (readers : Nat) (j : Nat) :
    live ⟨current, qs, readers⟩ j = g.live j := by
  subst hqs
  rw [live, live, List.getElem?_modify]
  by_cases hij : i = j
  · subst hij
    cases hq : g.queues[i]? with
    | none => rfl
    | some q => simpa [hq] using hf q hq
  · simp [hij]

theorem modifyCurrent_current (f : LogQueueInner F → LogQueueInner F) (g : Globals F) :
    (g.modifyCurrent f).current = g.current := by
  unfold modifyCurrent
  cases hcurrent : g.current with
  | none => exact hcurrent
  | some i => rfl

theorem modifyCurrent_readers (f : LogQueueInner F → LogQueueInner F) (g : Globals F) :
    (g.modifyCurrent f).readers = g.readers := by
  unfold modifyCurrent
  cases g.current <;> rfl

theorem length_modifyCurrent (f : LogQueueInner F → LogQueueInner F) (g : Globals F) :
    (g.modifyCurrent f).queues.length = g.queues.length := by
  unfold modifyCurrent
  cases g.current with
  | none => rfl
  | some i => exact List.length_modify ..

theorem live_modifyCurrent {f : LogQueueInner F → LogQueueInner F}
    (hf : ∀ q, (f q).connected = q.connected) (g : Globals F) (j : Nat) :
    (g.modifyCurrent f).live j = g.live j := by
  unfold modifyCurrent
  cases g.current with
  | none => rfl
  | some i => exact live_modify f (fun q _ => hf q) rfl _ _ j

theorem live_takeAway (hwired : ∀ i, g.live i = true ↔ g.current = some i) (j : Nat) :
    g.takeAway.live j = false := by
  have hdead : g.current ≠ some j → g.live j = false := fun hne =>
    eq_false_of_ne_true fun hlive => hne ((hwired j).mp hlive)
  unfold takeAway modifyCurrent
  cases hcurrent : g.current with
  | none => exact hdead (by simp [hcurrent])
  | some i =>
    by_cases hij : i = j
    · subst hij
      simp only [live, List.getElem?_modify_eq]
      cases g.queues[i]? <;> rfl
    · have hother := hdead (by simpa [hcurrent] using hij)
      simpa [live, List.getElem?_modify, hij] using hother

theorem live_install (config : LogConfig) (hwired : ∀ i, g.live i = true ↔ g.current = some i)
    (j : Nat) : (g.install config).live j = true ↔ some g.queues.length = some j := by
  have hlen : g.takeAway.queues.length = g.queues.length := length_modifyCurrent _ g
  unfold install live
  rcases Nat.lt_trichotomy j g.queues.length with hlt | rfl | hgt
  · rw [List.getElem?_append_left (hlen ▸ hlt)]
    have hdead := live_takeAway hwired j
    unfold live at hdead
    rw [hdead]
    simpa using Nat.ne_of_gt hlt
  · rw [← hlen, List.getElem?_concat_length]
    simp [LogQueueInner.start]
  · rw [List.getElem?_eq_none (by simp [hlen]; omega)]
    simpa using Nat.ne_of_lt hgt

end Globals

/-! ## The lock -/

/-- The queue with a sender is the one in the global, and threads that send hold the lock. -/
structure Wired (c : System F) : Prop where
  live : ∀ i, c.shared.live i = true ↔ c.shared.current = some i
  placed : ∀ task ∈ c.threads, task.Placed c.shared.current
  readers : c.threads.countP Task.isSending ≤ c.shared.readers

namespace Wired

variable {c c' : System F} {task task' : Task F} {g' : Globals F} {i : Nat} {a : Action F}

theorem init : Wired (System.init : System F) :=
  ⟨by simp [System.init, Globals.live], by simp [System.init], Nat.zero_le _⟩

/-- Nobody sends while the lock is free. -/
theorem idle_of_free (h : Wired c) (hfree : c.shared.readers = 0) :
    ∀ task ∈ c.threads, task.isSending = false := by
  have hnone : c.threads.countP Task.isSending = 0 := Nat.le_zero.mp (hfree ▸ h.readers)
  intro task hmem
  exact eq_false_of_ne_true (List.countP_eq_zero.mp hnone task hmem)

theorem connected_of_sending (h : Wired c) {q : LogQueueInner F} {e : LogEntry F}
    (htask : Task.sending i e ∈ c.threads) (hq : c.shared.queues[i]? = some q) :
    q.connected = true := by
  rw [← Globals.live_of_getElem? hq]
  exact (h.live i).mpr (h.placed _ htask)

/-- A step of a thread that neither has nor gets the lock. -/
theorem idle_move (h : Wired c) (hi : c.threads[i]? = some task) (hidle : task.isSending = false)
    (hidle' : task'.isSending = false) (hlive : ∀ j, g'.live j = true ↔ g'.current = some j)
    (hcurrent : g'.current = c.shared.current ∨ c.shared.readers = 0)
    (hreaders : g'.readers = c.shared.readers) : Wired ⟨g', c.threads.set i task'⟩ := by
  refine ⟨hlive, forall_mem_set (fun x hx => ?_) (.of_not_sending hidle'), ?_⟩
  · rcases hcurrent with heq | hfree
    · rw [heq]
      exact h.placed x hx
    · exact .of_not_sending (h.idle_of_free hfree x hx)
  · rw [countP_set_of_eq _ hi (hidle'.trans hidle.symm), hreaders]
    exact h.readers

theorem modifyCurrent (h : Wired c) (f : LogQueueInner F → LogQueueInner F)
    (hf : ∀ q, (f q).connected = q.connected) (hi : c.threads[i]? = some task)
    (hidle : task.isSending = false) (hidle' : task'.isSending = false) :
    Wired ⟨c.shared.modifyCurrent f, c.threads.set i task'⟩ := by
  refine h.idle_move hi hidle hidle' (fun j => ?_) (.inl (Globals.modifyCurrent_current _ _))
    (Globals.modifyCurrent_readers _ _)
  rw [Globals.live_modifyCurrent hf, Globals.modifyCurrent_current]
  exact h.live j

theorem move (h : Wired c) (hi : c.threads[i]? = some task)
    (hmove : Task.Move c.shared task g' task') : Wired ⟨g', c.threads.set i task'⟩ := by
  cases hmove with
  | look hidle hidle' => exact h.idle_move hi hidle hidle' h.live (.inl rfl) rfl
  | @accept e j q hcurrent hq hlevel =>
    refine ⟨h.live, forall_mem_set h.placed hcurrent, ?_⟩
    have hadd := countP_set_add Task.isSending hi (.sending j e)
    have hreaders := h.readers
    simp only [Task.isSending, if_true, Bool.false_eq_true, if_false] at hadd
    change (c.threads.set i _).countP Task.isSending ≤ c.shared.readers + 1
    omega
  | send j e =>
    have hadd := countP_set_add Task.isSending hi .returned
    have hreaders := h.readers
    simp only [Task.isSending, if_true, Bool.false_eq_true, if_false] at hadd
    refine ⟨fun k => ?_, forall_mem_set h.placed trivial, ?_⟩
    · rw [Globals.live_modify _ (fun q _ => (q.trySend_sent e).connected) rfl]
      exact h.live k
    · change (c.threads.set i _).countP Task.isSending ≤ c.shared.readers - 1
      omega
  | configure config | stop next => exact h.modifyCurrent _ (fun _ => rfl) hi rfl rfl
  | takeAway hfree hidle hidle' =>
    refine h.idle_move hi hidle hidle' (fun j => ?_) (.inr hfree)
      (Globals.modifyCurrent_readers _ _)
    rw [Globals.live_takeAway h.live]
    simp [Globals.takeAway]
  | install config hfree =>
    exact h.idle_move hi rfl rfl (Globals.live_install config h.live) (.inr hfree)
      (Globals.modifyCurrent_readers _ _)

theorem call (h : Wired c) (call : Call F) : Wired ⟨c.shared, c.threads ++ [call.task]⟩ := by
  have hidle : call.task.isSending = false := by
    cases call <;> rfl
  refine ⟨h.live, forall_mem_concat h.placed (.of_not_sending hidle), ?_⟩
  rw [List.countP_append, List.countP_singleton, hidle]
  exact h.readers

theorem step (h : Wired c) (hstep : System.step fmt c a = some c') : Wired c' := by
  cases System.step_cases hstep with
  | call call => exact h.call call
  | run hi hmove => exact h.move hi hmove
  | @consume i q q' hq hconsume =>
    refine ⟨fun j => ?_, h.placed, h.readers⟩
    rw [Globals.live_modify (g := c.shared) (i := i) (fun _ => q') (fun old hold => ?_)
      (List.set_eq_modify ..)]
    · exact h.live j
    · obtain rfl := Option.some.inj (hq.symm.trans hold)
      exact (LogQueueInner.consume_cases hconsume).connected
  | fork =>
    refine ⟨fun j => ?_, by simp, Nat.zero_le _⟩
    have hsame : Globals.live ⟨c.shared.current, c.shared.queues.map (·.forked), c.shared.readers⟩ j =
        c.shared.live j := by
      unfold Globals.live
      rw [List.getElem?_map]
      cases c.shared.queues[j]? with
      | none => rfl
      | some q => rcases q.forked_eq with ⟨-, heq⟩ | ⟨-, heq⟩ <;> simp [heq]
    rw [hsame]
    exact h.live j

end Wired

/-! ## Steps of the system -/

namespace System

variable {c c' : System F} {a : Action F} {g : Globals F} {i : Nat} {calm : Prop}

/-- The queues there were go on, and at most a new one comes after them. -/
def Evolves (fmt : Formats F) (calm : Prop) (qs qs' : List (LogQueueInner F)) : Prop :=
  ∃ turned fresh, qs' = turned ++ fresh ∧ List.Forall₂ (LogQueueInner.Turn fmt calm) qs turned ∧
    ∀ q ∈ fresh, ∃ config, q = .start config

theorem evolves_of_forall₂ {qs qs' : List (LogQueueInner F)}
    (h : List.Forall₂ (LogQueueInner.Turn fmt calm) qs qs') : Evolves fmt calm qs qs' :=
  ⟨qs', [], (List.append_nil _).symm, h, by simp⟩

theorem turns_modifyCurrent {f : LogQueueInner F → LogQueueInner F}
    (hf : ∀ q, LogQueueInner.Turn fmt calm q (f q)) (g : Globals F) :
    List.Forall₂ (LogQueueInner.Turn fmt calm) g.queues (g.modifyCurrent f).queues := by
  unfold Globals.modifyCurrent
  cases g.current with
  | none => exact List.forall₂_same.mpr fun _ _ => .keep
  | some i => exact forall₂_modify (fun _ => .keep) fun q _ => hf q

/-- No thread is about to change a configuration, and what is being sent has the level of its
queue. -/
def Calm (c : System F) : Prop := ∀ task ∈ c.threads, task.Calm c.shared.queues

theorem step_evolves (h : Wired c) (hcalm : calm → Calm c) (hstep : step fmt c a = some c') :
    Evolves fmt calm c.shared.queues c'.shared.queues := by
  have hsame : List.Forall₂ (LogQueueInner.Turn fmt calm) c.shared.queues c.shared.queues :=
    List.forall₂_same.mpr fun _ _ => .keep
  cases step_cases hstep with
  | call call => exact evolves_of_forall₂ hsame
  | @run i task task' g' hi hmove =>
    have hmem := List.mem_of_getElem? hi
    cases hmove with
    | look | accept => exact evolves_of_forall₂ hsame
    | send j e =>
      refine evolves_of_forall₂ (forall₂_modify (fun _ => .keep) fun q hq => ?_)
      refine .send e (h.connected_of_sending hmem hq) fun hc => ?_
      obtain ⟨q', hq', hlevel⟩ := hcalm hc _ hmem
      rwa [Option.some.inj (hq.symm.trans hq')]
    | configure config =>
      exact evolves_of_forall₂ (turns_modifyCurrent (fun _ => .configure config fun hc => hcalm hc _ hmem) _)
    | stop next => exact evolves_of_forall₂ (turns_modifyCurrent (fun _ => .stop) _)
    | takeAway => exact evolves_of_forall₂ (turns_modifyCurrent (fun _ => .disconnect) _)
    | install config =>
      refine ⟨_, _, rfl, turns_modifyCurrent (fun _ => .disconnect) _, fun q hq => ?_⟩
      exact ⟨config, List.mem_singleton.mp hq⟩
  | @consume i q q' hq hconsume =>
    rw [List.set_eq_modify]
    refine evolves_of_forall₂ (forall₂_modify (fun _ => .keep) fun old hold => ?_)
    obtain rfl := Option.some.inj (hq.symm.trans hold)
    exact .consume hconsume
  | fork =>
    refine evolves_of_forall₂ ?_
    rw [List.forall₂_map_right_iff, List.forall₂_same]
    exact fun _ _ => .fork

/-- What holds of every new queue, and every turn keeps, holds of all queues. -/
theorem Evolves.forall {P : LogQueueInner F → Prop} {qs qs' : List (LogQueueInner F)}
    (h : Evolves fmt calm qs qs') (hstart : ∀ config, P (.start config))
    (hturn : ∀ {q q'}, LogQueueInner.Turn fmt calm q q' → P q → P q') (hqs : ∀ q ∈ qs, P q) :
    ∀ q ∈ qs', P q := by
  obtain ⟨turned, fresh, rfl, hturned, hfresh⟩ := h
  intro q hq
  rcases List.mem_append.mp hq with hold | hnew
  · exact forall_mem_of_forall₂ hturned hturn hqs q hold
  · obtain ⟨config, rfl⟩ := hfresh q hnew
    exact hstart config

/-- A queue keeps its place. -/
theorem Evolves.at {qs qs' : List (LogQueueInner F)} (h : Evolves fmt calm qs qs')
    {q : LogQueueInner F} (hq : qs[i]? = some q) :
    ∃ q', qs'[i]? = some q' ∧ LogQueueInner.Turn fmt calm q q' := by
  obtain ⟨turned, fresh, rfl, hturned, -⟩ := h
  obtain ⟨q', hq', hturn⟩ := exists_of_forall₂ hturned hq
  refine ⟨q', ?_, hturn⟩
  rw [List.getElem?_append_left (List.getElem?_eq_some_iff.mp hq').1]
  exact hq'

/-! ## Whole runs -/

structure Good (fmt : Formats F) (c : System F) : Prop where
  wired : Wired c
  sound : ∀ q ∈ c.shared.queues, LogQueueInner.Sound fmt q

theorem Good.init : Good fmt (init : System F) := ⟨.init, by simp [System.init]⟩

theorem Good.step (h : Good fmt c) (hstep : step fmt c a = some c') : Good fmt c' :=
  ⟨h.wired.step hstep, (step_evolves h.wired False.elim hstep).forall LogQueueInner.start_sound
    (fun hturn => hturn.sound) h.sound⟩

theorem Good.of_reaches (h : Reaches (System.step fmt) System.init c) : Good fmt c :=
  h.invariant (fun _ _ _ hgood hstep => hgood.step hstep) .init

/-- What the turns of one queue preserve holds of it after a run. -/
theorem run_at {P : LogQueueInner F → Prop}
    (hturn : ∀ {q q'}, LogQueueInner.Sound fmt q → LogQueueInner.Turn fmt False q q' → P q → P q')
    {as : List (Action F)} (hgood : Good fmt c) {q : LogQueueInner F}
    (hq : c.shared.queues[i]? = some q) (hP : P q) (hrun : exec (System.step fmt) c as = some c') :
    ∃ q', c'.shared.queues[i]? = some q' ∧ P q' := by
  have hinv : Good fmt c' ∧ ∃ q', c'.shared.queues[i]? = some q' ∧ P q' := by
    refine Along.invariant (fun c => Good fmt c ∧ ∃ q, c.shared.queues[i]? = some q ∧ P q) ?_
      (.of_forall (C := fun _ _ => True) (fun _ _ _ => trivial) c) ⟨hgood, q, hq, hP⟩ hrun
    rintro s a t ⟨hs, q, hq, hP⟩ - hstep
    obtain ⟨q', hq', hturned⟩ := (step_evolves hs.wired False.elim hstep).at hq
    exact ⟨hs.step hstep, q', hq', hturn (hs.sound q (List.mem_of_getElem? hq)) hturned hP⟩
  exact hinv.2

end System

/-- In every run a queue never holds more than its capacity, everything it accepted was taken by the
consumer in that order, still waits or was left over when the consumer gave up the channel, and what
is written is some of what was taken, once and in order. -/
theorem log_queue_accounts {c : System F} (h : Reaches (System.step fmt) System.init c) :
    ∀ q ∈ c.shared.queues, q.queue.length ≤ q.capacity ∧
      q.accepted = q.taken ++ q.queue ++ q.discarded ∧
      q.written.Sublist (q.taken.map (·.formatColored fmt)) ∧
      (q.discarded ≠ [] → q.consumer = .exited ∧ q.running = false) := by
  intro q hq
  have hsound := (System.Good.of_reaches h).sound q hq
  refine ⟨hsound.bounded, hsound.accounted, ?_, fun hne => ?_⟩
  · obtain ⟨prior, htaken, hwritten⟩ := hsound.written
    rw [htaken, List.map_append]
    exact hwritten.trans (List.sublist_append_left _ _)
  · have hexited := (hsound.discarded.resolve_right hne).1
    refine ⟨hexited, eq_false_of_ne_true fun hrunning => hne ?_⟩
    exact (hsound.drained (by rw [hexited]; rfl) hrunning).2

/-- A queue for one entry is opened and gets two. -/
def twoEntries : List (Action Unit) :=
  [.call (.init ⟨.info, true, true, 1, []⟩), .run 0, .run 0, .run 0,
    .call (.logEntry (.new () .warn "first")), .run 1, .run 1,
    .call (.logEntry (.new () .warn "second")), .run 2, .run 2]

def plainFormats : Formats Unit := ⟨fun _ => "now", fun _ => "0.00", ()⟩

theorem log_queue_accounts_twoEntries :
    ∃ c q, exec (System.step plainFormats) System.init twoEntries = some c ∧ q ∈ c.shared.queues ∧
      q.queue.length = 1 ∧ q.accepted = q.taken ++ q.queue ++ q.discarded :=
  ⟨_, _, rfl, List.mem_singleton_self _, rfl,
    (@log_queue_accounts Unit plainFormats _ ⟨twoEntries, rfl⟩ _ (List.mem_singleton_self _)).2.1⟩

/-! ## Shutdown -/

namespace LogQueueInner

variable {q q' : LogQueueInner F} {e : LogEntry F}

/-- What a turn adds, it adds at the end, and a consumer only stops looking at an empty channel. -/
structure Grows (q q' : LogQueueInner F) : Prop where
  accepted : q.accepted <+: q'.accepted
  taken : q.taken <+: q'.taken
  finishes : q'.consumer.finished = true → q.consumer.finished = true ∨ q.queue = [] ∧ q'.taken = q.taken

theorem Grows.refl (q : LogQueueInner F) : Grows q q :=
  ⟨List.prefix_refl _, List.prefix_refl _, .inl⟩

theorem Sent.grows (h : Sent q e q') : Grows q q' := by
  cases h with
  | refused => exact .refl q
  | buffered => exact ⟨List.prefix_append _ _, List.prefix_refl _, .inl⟩
  | handed => exact ⟨List.prefix_append _ _, List.prefix_append _ _, by simp [Consumer.finished]⟩

theorem Consumed.grows (h : Consumed fmt q q') : Grows q q' := by
  cases h with
  | wait | stopped | timeOut | hungUp =>
    exact ⟨List.prefix_refl _, List.prefix_refl _, by simp [Consumer.finished]⟩
  | receive | flush =>
    exact ⟨List.prefix_refl _, List.prefix_append _ _, by simp [Consumer.finished]⟩
  | flushEnd hat hqueue =>
    exact ⟨List.prefix_refl _, List.prefix_refl _, fun _ => .inr ⟨hqueue, rfl⟩⟩
  | write e next hheld =>
    obtain ⟨line, heq, -⟩ := write_eq fmt q e next
    rw [heq]
    refine ⟨List.prefix_refl _, List.prefix_refl _, fun hfinished => ?_⟩
    rcases hheld with ⟨-, rfl⟩ | ⟨-, rfl⟩ <;> simp [Consumer.finished] at hfinished
  | exit hat =>
    exact ⟨List.prefix_refl _, List.prefix_refl _, fun _ => .inl (by rw [hat]; rfl)⟩

theorem Turn.grows {calm : Prop} (h : Turn fmt calm q q') : Grows q q' := by
  cases h with
  | keep => exact .refl q
  | configure | stop | disconnect => exact ⟨List.prefix_refl _, List.prefix_refl _, .inl⟩
  | send e hconnected hlevel => exact (q.trySend_sent e).grows
  | consume hconsume => exact (consume_cases hconsume).grows
  | fork =>
    rcases q.forked_eq with ⟨-, heq⟩ | ⟨-, heq⟩
    · rw [heq]
      exact .refl q
    · rw [heq]
      exact ⟨List.prefix_refl _, List.prefix_refl _, by simp [Consumer.finished]⟩

/-- All of `entries` was accepted, and is not left over. -/
structure Delivers (entries : List (LogEntry F)) (q : LogQueueInner F) : Prop where
  accepted : entries <+: q.accepted
  taken : q.consumer.finished = true → entries <+: q.taken

theorem Delivers.turn {entries : List (LogEntry F)} {calm : Prop} (hsound : Sound fmt q)
    (hturn : Turn fmt calm q q') (h : Delivers entries q) : Delivers entries q' := by
  have hgrows := hturn.grows
  refine ⟨h.accepted.trans hgrows.accepted, fun hfinished => ?_⟩
  rcases hgrows.finishes hfinished with hbefore | ⟨hqueue, htaken⟩
  · exact (h.taken hbefore).trans hgrows.taken
  · have haccepted := h.accepted
    rcases hsound.discarded with ⟨hexited, -⟩ | hnone
    · exact (h.taken (by rw [hexited]; rfl)).trans hgrows.taken
    · rw [hsound.accounted, hqueue, hnone, List.append_nil, List.append_nil] at haccepted
      rw [htaken]
      exact haccepted

theorem Sound.delivers (h : Sound fmt q) (hrunning : q.running = true) : Delivers q.accepted q := by
  refine ⟨List.prefix_refl _, fun hfinished => ?_⟩
  obtain ⟨hqueue, hnone⟩ := h.drained hfinished hrunning
  have haccounted : q.accepted = q.taken := by
    rw [h.accounted, hqueue, hnone, List.append_nil, List.append_nil]
  exact haccounted ▸ List.prefix_refl _

end LogQueueInner

/-! ## The level -/

namespace LogQueueInner

variable {q q' : LogQueueInner F} {e : LogEntry F}

/-- All that is accepted is of the level of the configuration, and all that is taken is written. -/
structure Plain (fmt : Formats F) (q : LogQueueInner F) : Prop where
  level : ∀ e ∈ q.accepted, q.config.level ≤ e.level
  written : ∃ prior, q.taken = prior ++ q.consumer.holding ∧
    q.written = prior.map (·.formatColored fmt)

theorem start_plain (config : LogConfig) : Plain fmt (.start config) := ⟨by simp [start], [], rfl, rfl⟩

theorem Sent.plain (hsent : Sent q e q') (hlevel : q.config.level ≤ e.level) (h : Plain fmt q) :
    Plain fmt q' := by
  have hall : ∀ x ∈ q.accepted ++ [e], q.config.level ≤ x.level := forall_mem_concat h.level hlevel
  obtain ⟨prior, htaken, hwritten⟩ := h.written
  cases hsent with
  | refused => exact h
  | buffered => exact ⟨hall, prior, htaken, hwritten⟩
  | handed hwaiting =>
    rw [hwaiting] at htaken
    refine ⟨hall, prior, ?_, hwritten⟩
    simpa [Consumer.holding] using htaken

theorem Plain.goto (h : Plain fmt q) {next : Consumer F} (hholding : next.holding = q.consumer.holding) :
    Plain fmt { q with consumer := next } := by
  obtain ⟨prior, htaken, hwritten⟩ := h.written
  refine ⟨h.level, prior, ?_, hwritten⟩
  rw [hholding]
  exact htaken

theorem Plain.take (h : Plain fmt q) {rest : List (LogEntry F)} {next : Consumer F}
    (hnothing : q.consumer.holding = []) (hholding : next.holding = [e]) :
    Plain fmt { q with queue := rest, consumer := next, taken := q.taken ++ [e] } := by
  obtain ⟨prior, htaken, hwritten⟩ := h.written
  rw [hnothing, List.append_nil] at htaken
  refine ⟨h.level, q.taken, ?_, ?_⟩
  · rw [hholding]
  · rw [htaken]
    exact hwritten

theorem Consumed.plain (hconsumed : Consumed fmt q q') (hsound : Sound fmt q) (h : Plain fmt q) :
    Plain fmt q' := by
  cases hconsumed with
  | wait hat | stopped hat | timeOut hat | hungUp hat | flushEnd hat =>
    exact h.goto (by rw [hat]; rfl)
  | receive e rest hat | flush e rest hat => exact h.take (by rw [hat]; rfl) rfl
  | write e next hheld =>
    obtain ⟨prior, htaken, hwritten⟩ := h.written
    have hplaces : q.consumer.holding = [e] ∧ next.holding = [] := by
      rcases hheld with ⟨hat, rfl⟩ | ⟨hat, rfl⟩ <;> simp [hat, Consumer.holding]
    have hlevel : q.config.level ≤ e.level := by
      apply h.level
      rw [hsound.accounted, htaken, hplaces.1]
      simp
    obtain ⟨line, heq, -, hline⟩ := write_eq fmt q e next
    rw [heq, hline hlevel]
    refine ⟨h.level, q.taken, ?_, ?_⟩
    · rw [hplaces.2, List.append_nil]
    · rw [htaken, hplaces.1, List.map_append, hwritten]
      rfl
  | exit hat =>
    obtain ⟨prior, htaken, hwritten⟩ := h.written
    rw [hat] at htaken
    exact ⟨h.level, prior, htaken, hwritten⟩

theorem Turn.plain (hturn : Turn fmt True q q') (hsound : Sound fmt q) (h : Plain fmt q) :
    Plain fmt q' := by
  cases hturn with
  | keep => exact h
  | configure config hupdate => exact absurd trivial hupdate
  | stop | disconnect => exact ⟨h.level, h.written⟩
  | send e hconnected hlevel => exact (q.trySend_sent e).plain (hlevel trivial) h
  | consume hconsume => exact (consume_cases hconsume).plain hsound h
  | fork =>
    rcases q.forked_eq with ⟨-, heq⟩ | ⟨-, heq⟩
    · rw [heq]
      exact h
    · rw [heq]
      exact h.goto rfl

theorem Sent.config (h : Sent q e q') : q'.config = q.config := by
  cases h <;> rfl

theorem Consumed.config (h : Consumed fmt q q') : q'.config = q.config := by
  cases h with
  | write e next =>
    obtain ⟨line, heq, -⟩ := write_eq fmt q e next
    rw [heq]
  | _ => rfl

theorem Turn.config (hturn : Turn fmt True q q') : q'.config = q.config := by
  cases hturn with
  | configure config hupdate => exact absurd trivial hupdate
  | send e hconnected hlevel => exact (q.trySend_sent e).config
  | consume hconsume => exact (consume_cases hconsume).config
  | fork => rcases q.forked_eq with ⟨-, heq⟩ | ⟨-, heq⟩ <;> rw [heq]
  | _ => rfl

end LogQueueInner

namespace System

variable {c c' : System F} {a : Action F} {qs qs' : List (LogQueueInner F)}

theorem calm_evolves {task : Task F} (h : task.Calm qs) (hqs : Evolves fmt True qs qs') :
    task.Calm qs' := by
  cases task with
  | sending i e =>
    obtain ⟨q, hq, hlevel⟩ := h
    obtain ⟨q', hq', hturn⟩ := hqs.at hq
    refine ⟨q', hq', ?_⟩
    rw [hturn.config]
    exact hlevel
  | updateConfig config => exact h
  | _ => trivial

theorem Calm.step (h : Calm c) (hwired : Wired c) (ha : a.isUpdate = false)
    (hstep : step fmt c a = some c') : Calm c' := by
  have hqs := step_evolves hwired (fun _ : True => h) hstep
  have hold : ∀ task ∈ c.threads, task.Calm c'.shared.queues := fun task hmem =>
    calm_evolves (h task hmem) hqs
  cases step_cases hstep with
  | call call =>
    refine forall_mem_concat hold ?_
    cases call with
    | updateConfig config => cases ha
    | _ => trivial
  | run hi hmove =>
    refine forall_mem_set hold ?_
    cases hmove with
    | look hidle hidle' hupdate | takeAway hfree hidle hidle' hupdate => exact .of_idle hidle' hupdate
    | accept hcurrent hq hlevel => exact ⟨_, hq, hlevel⟩
    | _ => trivial
  | consume => exact hold
  | fork => exact List.forall_mem_nil _

/-- What holds besides in a run without an update of the configuration. -/
structure Quiet (fmt : Formats F) (c : System F) : Prop extends Good fmt c where
  calm : Calm c
  plain : ∀ q ∈ c.shared.queues, LogQueueInner.Plain fmt q

theorem Quiet.init : Quiet fmt (init : System F) :=
  ⟨.init, List.forall_mem_nil _, List.forall_mem_nil _⟩

theorem Quiet.step (h : Quiet fmt c) (ha : a.isUpdate = false) (hstep : step fmt c a = some c') :
    Quiet fmt c' := by
  refine ⟨h.toGood.step hstep, h.calm.step h.wired ha hstep, ?_⟩
  have hqs := step_evolves h.wired (fun _ : True => h.calm) hstep
  have hboth := hqs.forall (P := fun q => LogQueueInner.Sound fmt q ∧ LogQueueInner.Plain fmt q)
    (fun config => ⟨LogQueueInner.start_sound config, LogQueueInner.start_plain config⟩)
    (fun hturn hq => ⟨hturn.sound hq.1, hturn.plain hq.1 hq.2⟩)
    fun q hq => ⟨h.sound q hq, h.plain q hq⟩
  exact fun q hq => (hboth q hq).2

end System

/-- What a queue accepted before its flag was cleared is never left over: once the consumer has
ended, it has taken all of it. As long as nobody updates the configuration, what is taken is
written. -/
theorem shutdown_flushes {c c' : System F} {as bs : List (Action F)} {i : Nat}
    {q q' : LogQueueInner F} (hc : exec (System.step fmt) System.init as = some c)
    (hq : c.shared.queues[i]? = some q) (hrunning : q.running = true)
    (hc' : exec (System.step fmt) c bs = some c') (hq' : c'.shared.queues[i]? = some q')
    (hexited : q'.consumer = .exited) :
    q.accepted <+: q'.taken ∧
      ((∀ a ∈ as ++ bs, a.isUpdate = false) → q'.written = q'.taken.map (·.formatColored fmt)) := by
  have hgood := System.Good.of_reaches ⟨as, hc⟩
  constructor
  · obtain ⟨q'', hq'', hdelivers⟩ := System.run_at (fun hsound hturn h => h.turn hsound hturn) hgood hq
      ((hgood.sound q (List.mem_of_getElem? hq)).delivers hrunning) hc'
    obtain rfl := Option.some.inj (hq'.symm.trans hq'')
    exact hdelivers.taken (by rw [hexited]; rfl)
  · intro hupdate
    have hquiet : System.Quiet fmt c' := Along.invariant (System.Quiet fmt)
      (fun s a t hs ha hstep => hs.step ha hstep)
      (.of_forall (C := fun _ a => a.isUpdate = false) (fun a ha _ => hupdate a ha) _) .init
      (exec_trans hc hc')
    obtain ⟨prior, htaken, hwritten⟩ := (hquiet.plain q' (List.mem_of_getElem? hq')).written
    rw [hexited] at htaken
    rw [hwritten, htaken]
    simp [Consumer.holding]

/-- A call of `shutdown`, and the consumer writes the entry that waits. -/
def writtenOut : List (Action Unit) :=
  [.call .shutdown, .run 3, .run 3] ++ List.replicate 5 (.consume 0)

theorem shutdown_flushes_twoEntries :
    ∃ c c' q q', exec (System.step plainFormats) System.init twoEntries = some c ∧
      exec (System.step plainFormats) c writtenOut = some c' ∧ c.shared.queues[0]? = some q ∧
      c'.shared.queues[0]? = some q' ∧ q.accepted = [.new () .warn "first"] ∧
      q.accepted <+: q'.taken ∧ q'.written = q'.taken.map (·.formatColored plainFormats) :=
  have h := @shutdown_flushes Unit plainFormats _ _ twoEntries writtenOut 0 _ _ rfl rfl rfl rfl rfl rfl
  ⟨_, _, _, _, rfl, rfl, rfl, rfl, rfl, h.1, h.2 (by decide)⟩

/-! ## The end of a consumer -/

namespace LogQueueInner

variable {q q' : LogQueueInner F}

/-- How many steps a consumer has left at most once nobody can send. -/
def stepsLeft (q : LogQueueInner F) : Nat :=
  match q.consumer with
  | .received _ => 3 * q.queue.length + 5
  | .looping => 3 * q.queue.length + 4
  | .receiving | .flushed _ => 3 * q.queue.length + 3
  | .flushing => 3 * q.queue.length + 2
  | .leaving => 1
  | .exited | .gone _ => 0

theorem stepsLeft_le (q : LogQueueInner F) : q.stepsLeft ≤ 3 * q.queue.length + 5 := by
  unfold stepsLeft
  cases q.consumer <;> simp

theorem Consumed.stepsLeft (h : Consumed fmt q q') (hconnected : q.connected = false) :
    q'.stepsLeft < q.stepsLeft := by
  cases h with
  | wait hat | stopped hat =>
    simp only [LogQueueInner.stepsLeft, hat]
    omega
  | receive e rest hat hqueue | flush e rest hat hqueue =>
    simp only [LogQueueInner.stepsLeft, hat, hqueue, List.length_cons]
    omega
  | timeOut hat hqueue hconnected' => exact absurd (hconnected.symm.trans hconnected') (by decide)
  | hungUp hat hqueue | flushEnd hat hqueue =>
    simp only [LogQueueInner.stepsLeft, hat, hqueue, List.length_nil]
    omega
  | write e next hheld =>
    obtain ⟨line, heq, -⟩ := write_eq fmt q e next
    rw [heq]
    rcases hheld with ⟨hat, rfl⟩ | ⟨hat, rfl⟩ <;> simp only [LogQueueInner.stepsLeft, hat] <;> omega
  | exit hat => simp [LogQueueInner.stepsLeft, hat]

/-- Nobody can send any more, and the consumer has at most `n` steps left. -/
def Closing (n : Nat) (q : LogQueueInner F) : Prop := q.connected = false ∧ q.stepsLeft ≤ n

theorem Closing.turn {n : Nat} {calm : Prop} (h : Closing n q) (hturn : Turn fmt calm q q') :
    Closing n q' := by
  cases hturn with
  | keep | configure | stop => exact h
  | disconnect => exact ⟨rfl, h.2⟩
  | send e hconnected => exact absurd (h.1.symm.trans hconnected) (by decide)
  | consume hconsume =>
    have hconsumed := consume_cases hconsume
    exact ⟨hconsumed.connected.trans h.1, Nat.le_trans (Nat.le_of_lt (hconsumed.stepsLeft h.1)) h.2⟩
  | fork =>
    rcases q.forked_eq with ⟨-, heq⟩ | ⟨-, heq⟩
    · rw [heq]
      exact h
    · rw [heq]
      exact ⟨h.1, Nat.zero_le _⟩

theorem consume_eq_none_iff : q.consume fmt = none ↔ q.consumer.isOver = true := by
  unfold consume
  cases q.consumer with
  | receiving | flushing => cases q.queue <;> simp [Consumer.isOver]
  | _ => simp [Consumer.isOver]

end LogQueueInner

def Action.isConsume (i : Nat) : Action F → Bool
  | .consume j => i == j
  | _ => false

namespace System

variable {c c' : System F} {a : Action F} {i n : Nat} {q : LogQueueInner F}

/-- The steps of the consumer count against what it has left. -/
theorem closing_step (hgood : Good fmt c) (hq : c.shared.queues[i]? = some q)
    (hclosing : q.Closing n) (hstep : step fmt c a = some c') :
    ∃ q' n', c'.shared.queues[i]? = some q' ∧ q'.Closing n' ∧
      (if a.isConsume i then 1 else 0) + n' ≤ n := by
  by_cases ha : a.isConsume i = true
  · cases step_cases hstep with
    | @consume j q₀ q' hq₀ hconsume =>
      obtain rfl : i = j := by simpa [Action.isConsume] using ha
      obtain rfl := Option.some.inj (hq.symm.trans hq₀)
      have hconsumed := LogQueueInner.consume_cases hconsume
      have hless := hconsumed.stepsLeft hclosing.1
      refine ⟨q', q'.stepsLeft, ?_, ⟨hconsumed.connected.trans hclosing.1, Nat.le_refl _⟩, ?_⟩
      · exact List.getElem?_set_self (List.getElem?_eq_some_iff.mp hq).1
      · have hleft := hclosing.2
        rw [if_pos ha]
        omega
    | call | run | fork => simp [Action.isConsume] at ha
  · obtain ⟨q', hq', hturn⟩ := (step_evolves hgood.wired False.elim hstep).at hq
    refine ⟨q', n, hq', hclosing.turn hturn, ?_⟩
    rw [if_neg ha, Nat.zero_add]

theorem closing_run {as : List (Action F)} (hgood : Good fmt c) (hq : c.shared.queues[i]? = some q)
    (hclosing : q.Closing n) (hrun : exec (step fmt) c as = some c') :
    ∃ q' n', c'.shared.queues[i]? = some q' ∧ q'.Closing n' ∧
      as.countP (Action.isConsume i) + n' ≤ n := by
  induction as generalizing c q n with
  | nil =>
    cases hrun
    exact ⟨q, n, hq, hclosing, by simp⟩
  | cons a as ih =>
    obtain ⟨t, hstep, hrun⟩ := exec_cons_eq_some.mp hrun
    obtain ⟨q₁, n₁, hq₁, hclosing₁, hone⟩ := closing_step hgood hq hclosing hstep
    obtain ⟨q', n', hq', hclosing', hrest⟩ := ih (hgood.step hstep) hq₁ hclosing₁ hrun
    refine ⟨q', n', hq', hclosing', ?_⟩
    rw [List.countP_cons]
    omega

end System

/-- Once the sender of a queue is dropped its consumer ends after at most three steps for each entry
that waits and five more, whatever the other threads do in between, and until then it always has a
step. -/
theorem consumer_ends {c c' : System F} {as : List (Action F)} {i : Nat} {q : LogQueueInner F}
    (hc : Reaches (System.step fmt) System.init c) (hq : c.shared.queues[i]? = some q)
    (hconnected : q.connected = false) (hc' : exec (System.step fmt) c as = some c') :
    as.countP (Action.isConsume i) ≤ 3 * q.queue.length + 5 ∧
      ∃ q', c'.shared.queues[i]? = some q' ∧
        (q'.consumer.isOver = true ∨ ∃ c'', System.step fmt c' (.consume i) = some c'') := by
  obtain ⟨q', n', hq', hclosing', hcount⟩ := System.closing_run (System.Good.of_reaches hc) hq
    ⟨hconnected, Nat.le_refl _⟩ hc'
  have hbound := q.stepsLeft_le
  refine ⟨by omega, q', hq', ?_⟩
  cases hconsume : q'.consume fmt with
  | some q'' =>
    right
    simp only [System.step, hq', Option.bind_some, hconsume, Option.map_some]
    exact ⟨_, rfl⟩
  | none => exact .inl (LogQueueInner.consume_eq_none_iff.mp hconsume)

/-- One entry waits when the queue is shut down. -/
theorem consumer_ends_twoEntries :
    ∃ c c' q, exec (System.step plainFormats) System.init
        (twoEntries ++ [.call .shutdown, .run 3, .run 3]) = some c ∧
      exec (System.step plainFormats) c (List.replicate 5 (.consume 0)) = some c' ∧
      c.shared.queues[0]? = some q ∧
      (List.replicate 5 (.consume 0) : List (Action Unit)).countP (Action.isConsume 0) ≤
        3 * q.queue.length + 5 :=
  ⟨_, _, _, rfl, rfl, rfl, (@consumer_ends Unit plainFormats _ _ (List.replicate 5 (.consume 0)) 0 _
    ⟨twoEntries ++ [.call .shutdown, .run 3, .run 3], rfl⟩ rfl rfl rfl).1⟩

/-! ## A forked child -/

namespace LogQueueInner

variable {q q' : LogQueueInner F} {e : LogEntry F}

/-- The consumer is over, and has written `lines`. -/
structure Abandoned (lines : List String) (q : LogQueueInner F) : Prop where
  ended : q.consumer.isOver = true
  written : q.written = lines

theorem forked_abandoned (q : LogQueueInner F) : Abandoned q.written q.forked := by
  rcases q.forked_eq with ⟨hexited, heq⟩ | ⟨-, heq⟩
  · rw [heq]
    exact ⟨by rw [hexited]; rfl, rfl⟩
  · rw [heq]
    exact ⟨rfl, rfl⟩

theorem Sent.abandoned {lines : List String} (hsent : Sent q e q') (h : Abandoned lines q) :
    Abandoned lines q' := by
  cases hsent with
  | refused => exact h
  | buffered => exact ⟨h.ended, h.written⟩
  | handed hwaiting =>
    have hover := h.ended
    rw [hwaiting] at hover
    cases hover

theorem Abandoned.turn {lines : List String} {calm : Prop} (h : Abandoned lines q)
    (hturn : Turn fmt calm q q') : Abandoned lines q' := by
  cases hturn with
  | keep => exact h
  | configure | stop | disconnect => exact ⟨h.ended, h.written⟩
  | send e => exact (q.trySend_sent e).abandoned h
  | consume hconsume =>
    rw [consume_eq_none_iff.mpr h.ended] at hconsume
    cases hconsume
  | fork =>
    have hforked := q.forked_abandoned
    rw [h.written] at hforked
    exact hforked

end LogQueueInner

/-- A forked child writes nothing of what the queues of its parent hold, whatever it does after the
fork: a line is written by the parent or not at all. -/
theorem child_writes_nothing_of_parent {c c₁ c' : System F} {as : List (Action F)} {i : Nat}
    {q : LogQueueInner F} (hc : Reaches (System.step fmt) System.init c)
    (hq : c.shared.queues[i]? = some q) (hfork : System.step fmt c .fork = some c₁)
    (hc' : exec (System.step fmt) c₁ as = some c') :
    ∃ q', c'.shared.queues[i]? = some q' ∧ q'.written = q.written := by
  have hgood := (System.Good.of_reaches hc).step hfork
  have hq₁ : c₁.shared.queues[i]? = some q.forked := by
    cases hfork
    simp [hq]
  obtain ⟨q', hq', habandoned⟩ := System.run_at (fun _ hturn h => h.turn hturn) hgood hq₁
    q.forked_abandoned hc'
  exact ⟨q', hq', habandoned.written⟩

/-- The child opens a queue of its own, whose consumer writes what the child logs. -/
theorem child_writes_nothing_twoEntries :
    ∃ c₁ c' q q', exec (System.step plainFormats) System.init (twoEntries ++ [.fork]) = some c₁ ∧
      exec (System.step plainFormats) c₁ ([.call .reinitAfterFork] ++ List.replicate 5 (.run 0) ++
        [.call (.logEntry (.new () .warn "third")), .run 1, .run 1] ++
        List.replicate 4 (.consume 1)) = some c' ∧
      c₁.shared.queues[0]? = some q ∧ q.queue.length = 1 ∧ c'.shared.queues[0]? = some q' ∧
      q'.written = [] ∧ (c'.shared.queues.map (·.written.length)) = [0, 1] := by
  obtain ⟨q', hq', hwritten⟩ := @child_writes_nothing_of_parent Unit plainFormats _ _ _
    ([.call .reinitAfterFork] ++ List.replicate 5 (.run 0) ++
      [.call (.logEntry (.new () .warn "third")), .run 1, .run 1] ++ List.replicate 4 (.consume 1)) 0 _
    ⟨twoEntries, rfl⟩ rfl rfl rfl
  exact ⟨_, _, _, q', rfl, rfl, rfl, rfl, hq', hwritten, rfl⟩

end Hypern.Logging
