import Hypern.App.WrapHandler
import Hypern.Core.Context
import Hypern.Database.World
import Mathlib.Data.List.Induction

/-! Many requests at once. Each call of the wrapper is a coroutine that performs one
operation whenever it is resumed; the order of resumptions is arbitrary, and all of them
share the global map of database contexts. -/

namespace Hypern.Application

open Lib Python Database DbWorld Hypern.Core

variable {V : Type}

/-- A call of a wrapped handler, with the two clock readings that `Context::new` takes and
what the container's factories return. -/
structure Arrival (V : Type) where
  now : Instant
  later : Instant
  di : DIContainer V
  factory : String → Except PyExc V
  app : App
  handler : PyObject
  middleware : List PyObject
  path : String
  databases : List String

structure Coroutine (V : Type) where
  arrival : Arrival V
  code : Code

def Coroutine.alive (c : Coroutine V) : Bool :=
  match c.code with
  | .perform _ _ => true
  | _ => false

/-- `sessions` records which coroutine was handed which context by `db(ctx, dbAlias)`. -/
structure Loop (V : Type) where
  coroutines : List (Coroutine V)
  world : World
  sessions : List (Nat × Nat)

inductive Action (V : Type)
  | arrive (a : Arrival V)
  | resume (i : Nat) (out : Nat → Except String Unit)
  | call (i id : Nat) (op : SessionOp)

def arrivals (as : List (Action V)) : List (Arrival V) :=
  as.filterMap fun
    | .arrive a => some a
    | _ => none

def Loop.empty : Loop V := { coroutines := [], world := ⟨.empty, []⟩, sessions := [] }

def Loop.alive (s : Loop V) (i : Nat) : Bool := (s.coroutines[i]?.map Coroutine.alive).getD false

/-- The context behind the session that an operation obtains. -/
def obtained (env : RequestEnv) : Op → World → Option Nat
  | .session dbAlias init _, w =>
    if env.databases.contains dbAlias && init.isNone then
      some (w.db.getDb env.requestId dbAlias).1
    else none
  | _, _ => none

namespace Arrival

def age (a : Arrival V) : Nat := a.now.elapsed a.later

variable (xxh3_64 : List UInt8 → UInt64)

def env (a : Arrival V) : RequestEnv :=
  match a.di.createContext xxh3_64 a.factory a.now a.later with
  | .ok ctx => ⟨ctx.requestId, none, a.path, a.databases⟩
  | .error e => ⟨"", some e, a.path, a.databases⟩

def wrapped (a : Arrival V) : Code := a.app.wrapped (a.env xxh3_64) a.handler a.middleware

theorem env_requestId {a : Arrival V} (h : (a.env xxh3_64).factoryError = none) :
    (a.env xxh3_64).requestId = requestIdOf xxh3_64 a.age := by
  unfold env at h ⊢
  split at h
  next ctx hctx => exact DIContainer.createContext_requestId xxh3_64 hctx
  next => cases h

theorem factoryError_eq_none {a : Arrival V} (h : Coroutine.alive ⟨a, a.wrapped xxh3_64⟩ = true) :
    (a.env xxh3_64).factoryError = none := by
  cases he : (a.env xxh3_64).factoryError with
  | none => rfl
  | some e => simp [wrapped, App.wrapped, he, Coroutine.alive] at h

end Arrival

namespace Loop

variable (xxh3_64 : List UInt8 → UInt64)

def step (s : Loop V) : Action V → Loop V
  | .arrive a => { s with coroutines := s.coroutines ++ [⟨a, a.wrapped xxh3_64⟩] }
  | .resume i out =>
    match s.coroutines[i]? with
    | some ⟨a, .perform op k⟩ =>
      let r := World.step (a.env xxh3_64) out op s.world
      { coroutines := s.coroutines.set i ⟨a, k r.1⟩
        world := r.2
        sessions := s.sessions ++ (obtained (a.env xxh3_64) op s.world).toList.map (i, ·) }
    | _ => s
  | .call i id op =>
    -- a session kept in a variable still reaches its context
    if s.alive i && s.sessions.contains (i, id) then
      { s with world := { s.world with db := (s.world.db.onContext id op.apply).2 } }
    else s

def run (as : List (Action V)) : Loop V := as.foldl (step xxh3_64) empty

/-- Two different requests that are both unfinished at some moment of the run. -/
def Overlap (as : List (Action V)) (i j : Nat) : Prop :=
  i ≠ j ∧ ∃ pre, pre <+: as ∧ (run xxh3_64 pre).alive i = true ∧ (run xxh3_64 pre).alive j = true

/-- Overlapping requests have different ids and are never given the same context. -/
def Isolated (as : List (Action V)) : Prop :=
  ∀ i j, Overlap xxh3_64 as i j → ∀ a b, (arrivals as)[i]? = some a → (arrivals as)[j]? = some b →
    (a.env xxh3_64).requestId ≠ (b.env xxh3_64).requestId ∧
      ∀ id, (i, id) ∈ (run xxh3_64 as).sessions → (j, id) ∉ (run xxh3_64 as).sessions

/-- Overlapping requests read different ages. -/
def DistinctAges (as : List (Action V)) : Prop :=
  ∀ i j, Overlap xxh3_64 as i j → ∀ a b, (arrivals as)[i]? = some a → (arrivals as)[j]? = some b →
    a.age ≠ b.age

/-- No two ages read in the run collide under the hash. -/
def CollisionFree (as : List (Action V)) : Prop :=
  Set.InjOn xxh3_64 {bytes | ∃ a ∈ arrivals as, bytes = toLeBytes a.age}

/-! ## One operation -/

end Loop

theorem session_cases (env : RequestEnv) (dbAlias : String) (init : Option PyExc)
    (op : Option SessionOp) (w : World) :
    let s := w.db.getDb env.requestId dbAlias
    let w' := (w.session env dbAlias init op).2
    (obtained env (.session dbAlias init op) w = none ∧ w'.db = w.db) ∨
    (obtained env (.session dbAlias init op) w = some s.1 ∧
      (w'.db = s.2 ∨ ∃ o : SessionOp, w'.db = (s.2.onContext s.1 o.apply).2)) := by
  by_cases ha : dbAlias ∈ env.databases
  · cases init with
    | some e => exact .inl (by simp [obtained, World.session, ha])
    | none =>
      refine .inr ⟨by simp [obtained, ha], ?_⟩
      cases op with
      | none => exact .inl (by simp [World.session, ha])
      | some o => exact .inr ⟨o, by simp [World.session, ha]⟩
  · exact .inl (by simp [obtained, World.session, ha])

theorem session_spec {w : World} (hw : Wf w.db) (env : RequestEnv) (dbAlias : String)
    (init : Option PyExc) (op : Option SessionOp) :
    let w' := (w.session env dbAlias init op).2
    Wf w'.db ∧ Extends w.db w'.db ∧
      ∀ id ∈ obtained env (.session dbAlias init op) w,
        id < w'.db.fresh ∧ (w'.db.heap id).requestId = env.requestId := by
  obtain ⟨hlt, hrid⟩ := hw.getDb_name env.requestId dbAlias
  have hwf := hw.getDb env.requestId dbAlias
  have hext := extends_getDb w.db env.requestId dbAlias
  obtain ⟨hobt, hdb⟩ | ⟨hobt, hdb | ⟨o, hdb⟩⟩ := session_cases env dbAlias init op w
  · dsimp only
    rw [hobt, hdb]
    exact ⟨hw, .refl _, fun _ h => nomatch h⟩
  · dsimp only
    rw [hobt, hdb]
    refine ⟨hwf, hext, fun id hid => ?_⟩
    obtain rfl := Option.mem_some_iff.mp hid
    exact ⟨hlt, hrid⟩
  · have hname := o.apply_name ((w.db.getDb env.requestId dbAlias).2.heap
      (w.db.getDb env.requestId dbAlias).1)
    have hcall := extends_onContext (w.db.getDb env.requestId dbAlias).2 _ o.apply hname
    dsimp only
    rw [hobt, hdb]
    refine ⟨hwf.onContext _ _ hname (o.apply_held _ (hwf.held _)), hext.trans hcall,
      fun id hid => ?_⟩
    obtain rfl := Option.mem_some_iff.mp hid
    exact ⟨Nat.lt_of_lt_of_le hlt hcall.fresh_le, (hcall.name _ hlt).requestId.trans hrid⟩

theorem step_spec {w : World} (hw : Wf w.db) (env : RequestEnv) (out : Nat → Except String Unit)
    (op : Op) :
    let w' := (World.step env out op w).2
    Wf w'.db ∧ Extends w.db w'.db ∧
      ∀ id ∈ obtained env op w, id < w'.db.fresh ∧ (w'.db.heap id).requestId = env.requestId := by
  cases op with
  | session dbAlias init op => exact session_spec hw env dbAlias init op
  | getDb args =>
    refine ⟨?_, ?_, by simp [obtained]⟩ <;> simp only [World.step, World.getDb]
    · split
      · exact hw.getDb _ _
      · exact hw
    · split
      · exact extends_getDb _ _ _
      · exact .refl _
  | setError id =>
    let mark (c : DatabaseContextInner) : Reply Unit := ⟨.ok (), c.setError, []⟩
    exact ⟨hw.onContext id mark ⟨rfl, rfl⟩ (hw.held id), extends_onContext w.db id mark ⟨rfl, rfl⟩,
      by simp [obtained]⟩
  | finalizeDb =>
    obtain ⟨hwf, hext⟩ := hw.finalizeAll env.requestId out
    exact ⟨hwf, hext, by simp [obtained]⟩
  | enter | escaped | next | defaultResponse => exact ⟨hw, .refl _, by simp [obtained]⟩

namespace Loop

/-! ## Whole runs -/

variable {xxh3_64} {s : Loop V}

def arrived (s : Loop V) : List (Arrival V) := s.coroutines.map (·.arrival)

structure Sound (xxh3_64 : List UInt8 → UInt64) (s : Loop V) : Prop where
  wf : Wf s.world.db
  live : ∀ c ∈ s.coroutines, c.alive = true → (c.arrival.env xxh3_64).factoryError = none
  session : ∀ i id, (i, id) ∈ s.sessions → id < s.world.db.fresh ∧
    ∃ a, s.arrived[i]? = some a ∧ (s.world.db.heap id).requestId = (a.env xxh3_64).requestId

theorem arrived_step (xxh3_64 : List UInt8 → UInt64) (s : Loop V) (act : Action V) :
    (s.step xxh3_64 act).arrived = s.arrived ++ arrivals [act] := by
  cases act with
  | arrive a => simp [step, arrived, arrivals]
  | resume i out =>
    simp only [step, arrivals]
    split
    next a op k hi =>
      have hget : s.arrived[i]? = some a := by simp [arrived, hi]
      obtain ⟨hlt, rfl⟩ := List.getElem?_eq_some_iff.mp hget
      simp only [arrived, List.map_set, List.filterMap_cons_none, List.filterMap_nil,
        List.append_nil]
      exact List.set_getElem_self hlt
    next => simp [arrived]
  | call i id op =>
    simp only [step, arrivals]
    split_ifs <;> simp [arrived]

theorem prefix_getElem?_eq_some {α : Type} {l l' : List α} (h : l <+: l') {i : Nat} {a : α}
    (ha : l[i]? = some a) : l'[i]? = some a := by
  obtain ⟨hlt, rfl⟩ := List.getElem?_eq_some_iff.mp ha
  exact List.prefix_iff_getElem?.mp h i hlt

theorem Sound.session_mono (h : Sound xxh3_64 s) {db : DbWorld} (hext : Extends s.world.db db)
    {as : List (Arrival V)} (has : s.arrived <+: as) {i id : Nat} (hid : (i, id) ∈ s.sessions) :
    id < db.fresh ∧ ∃ a, as[i]? = some a ∧ (db.heap id).requestId = (a.env xxh3_64).requestId := by
  obtain ⟨hlt, a, ha, hrid⟩ := h.session i id hid
  exact ⟨Nat.lt_of_lt_of_le hlt hext.fresh_le, a, prefix_getElem?_eq_some has ha,
    (hext.name id hlt).requestId.trans hrid⟩

theorem Sound.resume (h : Sound xxh3_64 s) (i : Nat) (out : Nat → Except String Unit) :
    Sound xxh3_64 (s.step xxh3_64 (.resume i out)) := by
  have harr := arrived_step xxh3_64 s (.resume i out)
  simp only [arrivals, List.filterMap_cons_none, List.filterMap_nil, List.append_nil] at harr
  simp only [Loop.step] at harr ⊢
  split at harr
  next a op k hi =>
    obtain ⟨hwf, hext, hobt⟩ := step_spec h.wf (a.env xxh3_64) out op
    refine ⟨hwf, fun c hc hlive => ?_, fun j id hid => ?_⟩
    · obtain hc | rfl := List.mem_or_eq_of_mem_set hc
      · exact h.live c hc hlive
      · exact h.live ⟨a, .perform op k⟩ (List.mem_of_getElem? hi) rfl
    · rw [harr]
      obtain hid | hid := List.mem_append.mp hid
      · exact h.session_mono hext (List.prefix_refl _) hid
      · obtain ⟨id', hid', heq⟩ := List.mem_map.mp hid
        obtain ⟨rfl, rfl⟩ := Prod.mk.inj heq
        obtain ⟨hlt, hrid⟩ := hobt id' (by simpa using hid')
        exact ⟨hlt, a, by simp [arrived, hi], hrid⟩
  next => exact h

theorem Sound.step (h : Sound xxh3_64 s) (act : Action V) : Sound xxh3_64 (s.step xxh3_64 act) := by
  cases act with
  | arrive a =>
    refine ⟨h.wf, fun c hc hlive => ?_, fun i id hid => ?_⟩
    · obtain hc | hc := List.mem_append.mp hc
      · exact h.live c hc hlive
      · obtain rfl := List.mem_singleton.mp hc
        exact a.factoryError_eq_none xxh3_64 hlive
    · rw [arrived_step]
      exact h.session_mono (.refl _) (List.prefix_append _ _) hid
  | resume i out => exact h.resume i out
  | call i id op =>
    simp only [Loop.step]
    split_ifs
    · have hname := op.apply_name (s.world.db.heap id)
      refine ⟨h.wf.onContext id _ hname (op.apply_held _ (h.wf.held id)), h.live, fun j id' hid => ?_⟩
      exact h.session_mono (extends_onContext _ id _ hname) (List.prefix_refl _) hid
    · exact h

theorem sound_run (xxh3_64 : List UInt8 → UInt64) (as : List (Action V)) :
    Sound xxh3_64 (run xxh3_64 as) ∧ (run xxh3_64 as).arrived = arrivals as := by
  induction as using List.reverseRecOn with
  | nil => exact ⟨⟨wf_empty, by simp [run, empty], by simp [run, empty]⟩, rfl⟩
  | append_singleton as act ih =>
    obtain ⟨hs, harr⟩ := ih
    rw [run, List.foldl_concat]
    refine ⟨hs.step act, ?_⟩
    rw [arrived_step, ← run, harr]
    simp [arrivals]

theorem requestId_of_alive {as pre : List (Action V)} (hpre : pre <+: as) {i : Nat}
    (hi : (run xxh3_64 pre).alive i = true) {a : Arrival V} (ha : (arrivals as)[i]? = some a) :
    (a.env xxh3_64).requestId = requestIdOf xxh3_64 a.age := by
  obtain ⟨hs, harr⟩ := sound_run xxh3_64 pre
  unfold Loop.alive at hi
  cases hc : (run xxh3_64 pre).coroutines[i]? with
  | none => simp [hc] at hi
  | some c =>
    have hlive := hs.live c (List.mem_of_getElem? hc) (by simpa [hc] using hi)
    have harrived : (arrivals pre)[i]? = some c.arrival := by
      rw [← harr]
      simp [arrived, hc]
    have harr_pre : arrivals pre <+: arrivals as := hpre.filterMap _
    obtain rfl := Option.some.inj ((prefix_getElem?_eq_some harr_pre harrived).symm.trans ha)
    exact Arrival.env_requestId xxh3_64 hlive

theorem CollisionFree.requestIdOf_ne {as : List (Action V)} (h : CollisionFree xxh3_64 as)
    {a b : Arrival V} (ha : a ∈ arrivals as) (hb : b ∈ arrivals as) (hne : a.age ≠ b.age) :
    requestIdOf xxh3_64 a.age ≠ requestIdOf xxh3_64 b.age := by
  intro heq
  have hhash := format016x_injective heq
  have hbytes := h ⟨a, ha, rfl⟩ ⟨b, hb, rfl⟩ hhash
  exact hne (toLeBytes_injOn (a.now.elapsed_lt a.later) (b.now.elapsed_lt b.later) hbytes)

theorem isolated_iff_distinctAges (as : List (Action V)) (hfree : CollisionFree xxh3_64 as) :
    Isolated xxh3_64 as ↔ DistinctAges xxh3_64 as := by
  constructor
  · rintro h i j hij a b ha hb hage
    have ⟨_, pre, hpre, hi, hj⟩ := hij
    refine (h i j hij a b ha hb).1 ?_
    rw [requestId_of_alive hpre hi ha, requestId_of_alive hpre hj hb, hage]
  · intro h i j hij a b ha hb
    have ⟨_, pre, hpre, hi, hj⟩ := hij
    have hne : (a.env xxh3_64).requestId ≠ (b.env xxh3_64).requestId := by
      rw [requestId_of_alive hpre hi ha, requestId_of_alive hpre hj hb]
      exact hfree.requestIdOf_ne (List.mem_of_getElem? ha) (List.mem_of_getElem? hb)
        (h i j hij a b ha hb)
    refine ⟨hne, fun id hid hid' => hne ?_⟩
    obtain ⟨hs, harr⟩ := sound_run xxh3_64 as
    obtain ⟨-, a', ha', hrid⟩ := hs.session i id hid
    obtain ⟨-, b', hb', hrid'⟩ := hs.session j id hid'
    rw [harr] at ha' hb'
    obtain rfl := Option.some.inj (ha.symm.trans ha')
    obtain rfl := Option.some.inj (hb.symm.trans hb')
    exact hrid.symm.trans hrid'

/-! ## Two requests that ask for the same database -/

/-- XXH3 with its default secret on inputs of 16 bytes, the only ones `Context::new` hashes. -/
def xxh3Of16 (input : List UInt8) : UInt64 :=
  let read (l : List UInt8) : Nat := l.foldr (fun b n => b.toNat + 256 * n) 0
  let lo := List.zipWith (· ^^^ ·) (input.take 8) [0xb9, 0x39, 0x42, 0xea, 0x7b, 0x73, 0x82, 0x67]
  let hi := List.zipWith (· ^^^ ·) (input.drop 8) [0x3a, 0x52, 0x96, 0x09, 0x3b, 0xbc, 0x56, 0xaf]
  let product := read lo * read hi
  let acc := UInt64.ofNat (16 + read lo.reverse + read hi +
    ((product % 2 ^ 64) ^^^ (product / 2 ^ 64)))
  let h := (acc ^^^ (acc >>> 37)) * 0x165667919E3779F9
  h ^^^ (h >>> 32)

def askDefault : PyObject :=
  asyncDef 0 3 fun _ => (Op.session "default" none none).call.bind fun _ => .ret ()

def askAt (start age : Nat) (h : start + age < 2 ^ 64 * 10 ^ 9) : Arrival Unit where
  now := ⟨start, by omega⟩
  later := ⟨start + age, h⟩
  di := ⟨∅, []⟩
  factory := fun _ => .ok ()
  app := ⟨[], [], [], ⟨[], none⟩⟩
  handler := askDefault
  middleware := []
  path := "/"
  databases := ["default"]

def askTwice (a b : Arrival Unit) : List (Action Unit) :=
  [.arrive a, .arrive b, .resume 0 fun _ => .ok (), .resume 0 fun _ => .ok (),
    .resume 1 fun _ => .ok (), .resume 1 fun _ => .ok ()]

/-- Two contexts that are 41 nanoseconds old when they ask for their age. -/
def sameAge : List (Action Unit) :=
  askTwice (askAt 1000 41 (by decide)) (askAt 5000 41 (by decide))

theorem sameAge_sessions (xxh3_64 : List UInt8 → UInt64) :
    (run xxh3_64 sameAge).sessions = [(0, 0), (1, 0)] := by
  simp [sameAge, askTwice, run, step, empty, Arrival.wrapped, App.wrapped, Arrival.env, askAt,
    DIContainer.createContext, DIContainer.callFactories, App.tryBody, Prog.finallyDo,
    App.runBefore, App.runPipeline, App.applicableMiddleware, askDefault, asyncDef, Prog.attempt,
    Prog.bind, App.executeHandler, recorded, PyObject.invoke, Op.call, Prog.call, World.step,
    World.log, obtained, World.session, DbWorld.getDb, getRequestContext, createRequestContext,
    Context.new, DbWorld.empty, Instant.elapsed, -AList.insert_empty]

theorem sameAge_collisionFree (xxh3_64 : List UInt8 → UInt64) : CollisionFree xxh3_64 sameAge := by
  rintro _ ⟨a, ha, rfl⟩ _ ⟨b, hb, rfl⟩ -
  have hage : ∀ a ∈ arrivals sameAge, a.age = 41 := by
    simp [arrivals, sameAge, askTwice, askAt, Arrival.age, Instant.elapsed]
  rw [hage a ha, hage b hb]

theorem context_shared_at_same_age :
    ¬ ∀ (xxh3_64 : List UInt8 → UInt64) (as : List (Action Unit)),
      CollisionFree xxh3_64 as → Isolated xxh3_64 as := by
  intro h
  have hoverlap : Overlap xxh3Of16 sameAge 0 1 :=
    ⟨by decide, sameAge.take 2, List.take_prefix _ _, rfl, rfl⟩
  have hisolated :=
    (h xxh3Of16 sameAge (sameAge_collisionFree xxh3Of16) 0 1 hoverlap _ _ rfl rfl).2
  rw [sameAge_sessions] at hisolated
  exact hisolated 0 (by decide) (by decide)

def otherAge : List (Action Unit) :=
  askTwice (askAt 1000 41 (by decide)) (askAt 5000 57 (by decide))

theorem otherAge_age : ∀ a ∈ arrivals otherAge, a.age = 41 ∨ a.age = 57 := by
  simp [arrivals, otherAge, askTwice, askAt, Arrival.age, Instant.elapsed]

theorem otherAge_collisionFree : CollisionFree xxh3Of16 otherAge := by
  have h41 : xxh3Of16 (toLeBytes 41) = 0x42505d9a93a9ed5a := by
    simp [toLeBytes, Nat.digitsAppend]
    decide
  have h57 : xxh3Of16 (toLeBytes 57) = 0x044211f17da6eb70 := by
    simp [toLeBytes, Nat.digitsAppend]
    decide
  rintro _ ⟨a, ha, rfl⟩ _ ⟨b, hb, rfl⟩ heq
  obtain ha | ha := otherAge_age a ha <;> obtain hb | hb := otherAge_age b hb <;>
    simp_all

theorem isolated_at_other_age : CollisionFree xxh3Of16 otherAge ∧ Isolated xxh3Of16 otherAge := by
  refine ⟨otherAge_collisionFree, (isolated_iff_distinctAges otherAge otherAge_collisionFree).mpr ?_⟩
  rintro i j ⟨hij, -⟩ a b ha hb
  match i, j with
  | 0, 0 | 1, 1 => exact absurd rfl hij
  | 0, 1 | 1, 0 =>
    obtain rfl := Option.some.inj ha
    obtain rfl := Option.some.inj hb
    decide
  | _ + 2, _ => cases ha
  | _, _ + 2 => cases hb

end Loop

end Hypern.Application
