import Hypern.Database.Transaction
import Hypern.Database.World

/-! The life of contexts over whole runs: sessions are obtained, used, kept by user code
after their context was finalized, and contexts are finalized one by one or all those of a
request together. -/

namespace Hypern.Database

open Lib DatabaseContextInner DbWorld

/-- `session` is a method call on a session that user code has kept, for the context `id`. The
hash map of a request gives its contexts in any `order`. -/
inductive WorldAct
  | getDb (requestId dbAlias : String)
  | session (id : Nat) (op : SessionOp)
  | finalizeDb (requestId dbAlias : String) (out : Except String Unit)
  | finalizeDbAll (requestId : String) (order : List Nat) (out : Nat → Except String Unit)

namespace DbWorld

/-- The contexts that the loop of `finalize_all_request_contexts` has finalized when it ends. -/
def finalizedBy (out : Nat → Except String Unit) : List Nat → DbWorld → List Nat
  | [], _ => []
  | id :: ids, w =>
    match w.finalize id (out id) with
    | (.error _, _) => []
    | (.ok _, w) => id :: finalizedBy out ids w

/-- Present in `REQUEST_CONTEXTS`. -/
def Registered (w : DbWorld) (id : Nat) : Prop :=
  ∃ requestId dbAlias, w.getRequestContext requestId dbAlias = some id

end DbWorld

/-- The world with the contexts whose `finalize` has succeeded. -/
structure History where
  world : DbWorld
  finalized : List Nat

namespace History

def start : History := ⟨.empty, []⟩

def step (s : History) : WorldAct → Option History
  | .getDb requestId dbAlias => some { s with world := (s.world.getDb requestId dbAlias).2 }
  | .session id op =>
    if id < s.world.fresh then some { s with world := (s.world.onContext id op.apply).2 } else none
  | .finalizeDb requestId dbAlias out =>
    some ⟨(s.world.finalizeRequestContext requestId dbAlias out).2,
      finalizedBy (fun _ => out) (s.world.getRequestContext requestId dbAlias).toList s.world ++
        s.finalized⟩
  | .finalizeDbAll requestId order out =>
    if order.isPerm (s.world.contextsOf requestId) then
      some ⟨(finalizeEach out order s.world).2, finalizedBy out order s.world ++ s.finalized⟩
    else none

/-- A finalized context stays closed, and every connection is held by a context that some
`finalize` can still reach. -/
structure Terminal (s : History) : Prop where
  closed : ∀ id ∈ s.finalized,
    (s.world.heap id).state = .closed ∧ (s.world.heap id).connection = none
  reachable : ∀ id < s.world.fresh,
    (s.world.heap id).connection.isSome = true → s.world.Registered id

/-- No method called on a finalized context acquires a connection. -/
def NoLateAcquire (s : History) : WorldAct → Prop
  | .session id op => id ∈ s.finalized → op.acquires = none
  | _ => True

end History

/-! ## One context is finalized -/

namespace DbWorld

variable {w : DbWorld} {id : Nat}

theorem Wf.registered_lt (hw : Wf w) (h : w.Registered id) : id < w.fresh := by
  obtain ⟨rid, a, h⟩ := h
  exact (hw.named rid a id h).1

/-- What finalizing some contexts has done: those in `done` are closed and gone from the map. -/
structure Swept (w w' : DbWorld) (ids done : List Nat) : Prop where
  wf : Wf w'
  machine : ∀ i, Machine (w'.heap i)
  fresh : w'.fresh = w.fresh
  subset : ∀ i ∈ done, i ∈ ids
  registered : ∀ i, w'.Registered i ↔ w.Registered i ∧ i ∉ done
  closed : ∀ i ∈ done, (w'.heap i).state = .closed ∧ (w'.heap i).connection = none
  untouched : ∀ i ∉ ids, w'.heap i = w.heap i

theorem finalize_heap (w : DbWorld) (id : Nat) (out : Except String Unit) :
    (w.finalize id out).2.heap = Function.update w.heap id ((w.heap id).finalize out).ctx ∧
      (w.finalize id out).2.fresh = w.fresh := by
  unfold DbWorld.finalize
  rcases hr : w.onContext id (·.finalize out) with ⟨e | _, w1⟩
  · obtain rfl := (congrArg Prod.snd hr).symm
    exact ⟨rfl, rfl⟩
  · obtain rfl := (congrArg Prod.snd hr).symm
    obtain ⟨hheap, hfresh, -⟩ := removeContext_frame (w.onContext id (·.finalize out)).2
      ((w.onContext id (·.finalize out)).2.heap id).requestId
      ((w.onContext id (·.finalize out)).2.heap id).dbAlias
    exact ⟨hheap, hfresh⟩

/-- The map after `finalize`: unchanged if it failed, else without the context. -/
theorem Wf.finalize_registered (hw : Wf w) (hreg : w.Registered id) (out : Except String Unit)
    (i : Nat) : (w.finalize id out).2.Registered i ↔
      w.Registered i ∧ ((w.finalize id out).1 = .ok () → i ≠ id) := by
  obtain ⟨rid, a, hid⟩ := hreg
  obtain ⟨-, hrid, ha⟩ := hw.named rid a id hid
  have hname := (w.heap id).finalize_name out
  unfold DbWorld.finalize
  rcases hr : w.onContext id (·.finalize out) with ⟨e | _, w1⟩
  · obtain rfl := (congrArg Prod.snd hr).symm
    exact ⟨fun h => ⟨h, nofun⟩, fun h => h.1⟩
  · have hview : ∀ rid' a', w1.getRequestContext rid' a' = w.getRequestContext rid' a' := by
      obtain rfl := (congrArg Prod.snd hr).symm
      exact fun _ _ => rfl
    have hheap : w1.heap id = ((w.heap id).finalize out).ctx := by
      obtain rfl := (congrArg Prod.snd hr).symm
      exact Function.update_self ..
    have hremoved : ∀ rid' a', (w1.removeContext (w1.heap id).requestId
        (w1.heap id).dbAlias).getRequestContext rid' a' =
          if rid' = rid ∧ a' = a then none else w.getRequestContext rid' a' := by
      intro rid' a'
      rw [getRequestContext_remove, hview, hheap, hname.requestId, hname.dbAlias, hrid, ha]
    unfold Registered
    constructor
    · rintro ⟨rid', a', h⟩
      dsimp only at h
      rw [hremoved] at h
      split_ifs at h with hkey
      refine ⟨⟨rid', a', h⟩, fun _ hi => hkey ?_⟩
      subst hi
      exact hw.named_unique h hid
    · rintro ⟨⟨rid', a', h⟩, hne⟩
      refine ⟨rid', a', ?_⟩
      dsimp only
      rw [hremoved, if_neg]
      · exact h
      · rintro ⟨rfl, rfl⟩
        exact hne rfl (Option.some.inj (h.symm.trans hid))

theorem finalize_result (w : DbWorld) (id : Nat) (out : Except String Unit) :
    (w.finalize id out).1 = ((w.heap id).finalize out).result := by
  unfold DbWorld.finalize
  rcases hr : w.onContext id (·.finalize out) with ⟨e | _, w1⟩
  · exact (congrArg Prod.fst hr).symm
  · exact (congrArg Prod.fst hr).symm

theorem finalize_closed {c : DatabaseContextInner} {out : Except String Unit}
    (h : (c.finalize out).result = .ok ()) :
    (c.finalize out).ctx.state = .closed ∧ (c.finalize out).ctx.connection = none := by
  unfold DatabaseContextInner.finalize at h ⊢
  rcases hr : c.endTransaction out with ⟨e | _, ctx, sent⟩
  · rw [hr] at h
    cases h
  · exact ⟨rfl, rfl⟩

theorem Wf.swept_one (hw : Wf w) (hm : ∀ i, Machine (w.heap i)) (hreg : w.Registered id)
    (out : Except String Unit) (done : List Nat)
    (hdone : ∀ i, i ∈ done ↔ i = id ∧ (w.finalize id out).1 = .ok ()) :
    Swept w (w.finalize id out).2 [id] done := by
  obtain ⟨hheap, hfresh⟩ := finalize_heap w id out
  refine ⟨(hw.finalize id out).1, fun i => ?_, hfresh, fun i hi => ?_, fun i => ?_, fun i hi => ?_,
    fun i hi => ?_⟩
  · rw [hheap]
    by_cases hi : i = id
    · subst hi
      rw [Function.update_self]
      exact ((hm i).finalize out).machine
    · rw [Function.update_of_ne hi]
      exact hm i
  · rw [((hdone i).mp hi).1]
    exact List.mem_singleton_self id
  · rw [hw.finalize_registered hreg out i, hdone]
    exact and_congr_right fun _ => not_and'.symm
  · obtain ⟨rfl, hok⟩ := (hdone i).mp hi
    rw [finalize_result] at hok
    rw [hheap, Function.update_self]
    exact finalize_closed hok
  · rw [hheap, Function.update_of_ne (fun h => hi (List.mem_singleton.mpr h))]

theorem Wf.swept (out : Nat → Except String Unit) (ids : List Nat) {w : DbWorld} (hw : Wf w)
    (hm : ∀ i, Machine (w.heap i)) (hnodup : ids.Nodup) (hreg : ∀ i ∈ ids, w.Registered i) :
    Swept w (DbWorld.finalizeEach out ids w).2 ids (finalizedBy out ids w) := by
  induction ids generalizing w with
  | nil =>
    have hnone : ∀ {i : Nat}, i ∉ ([] : List Nat) := List.not_mem_nil
    exact ⟨hw, hm, rfl, fun _ h => absurd h hnone, fun _ => (and_iff_left hnone).symm,
      fun _ h => absurd h hnone, fun _ _ => rfl⟩
  | cons id ids ih =>
    obtain ⟨hnot, hnodup⟩ := List.nodup_cons.mp hnodup
    have hid := hreg id List.mem_cons_self
    unfold DbWorld.finalizeEach finalizedBy
    rcases hr : w.finalize id (out id) with ⟨e | _, w1⟩
    · have hone := hw.swept_one hm hid (out id) [] fun i => by rw [hr]; simp
      rw [hr] at hone
      have hnone : ∀ {i : Nat}, i ∉ ([] : List Nat) := List.not_mem_nil
      exact ⟨hone.wf, hone.machine, hone.fresh, fun _ h => absurd h hnone, hone.registered,
        fun _ h => absurd h hnone,
        fun i hi => hone.untouched i fun h => hi (List.mem_cons.mpr (.inl (List.mem_singleton.mp h)))⟩
    · have hone := hw.swept_one hm hid (out id) [id] fun i => by rw [hr]; simp
      rw [hr] at hone
      have hrest := ih hone.wf hone.machine hnodup fun i hi =>
        (hone.registered i).mpr ⟨hreg i (List.mem_cons_of_mem _ hi),
          fun h => hnot (List.mem_singleton.mp h ▸ hi)⟩
      refine ⟨hrest.wf, hrest.machine, hrest.fresh.trans hone.fresh, fun i hi => ?_, fun i => ?_,
        fun i hi => ?_, fun i hi => ?_⟩
      · rcases List.mem_cons.mp hi with rfl | hi
        · exact List.mem_cons_self
        · exact List.mem_cons_of_mem _ (hrest.subset i hi)
      · rw [hrest.registered, hone.registered, List.mem_singleton, List.mem_cons, not_or, and_assoc]
      · rcases List.mem_cons.mp hi with rfl | hi
        · rw [hrest.untouched i hnot]
          exact hone.closed i (List.mem_singleton_self i)
        · exact hrest.closed i hi
      · rw [List.mem_cons, not_or] at hi
        rw [hrest.untouched i hi.2]
        exact hone.untouched i fun h => hi.1 (List.mem_singleton.mp h)

end DbWorld

/-! ## Runs -/

/-- The pool gives no connection to a context that has none. -/
theorem ensureConnection_fails {c : DatabaseContextInner} (hconn : c.connection = none)
    {pool : PoolGet} (hpool : pool.conn? = none) : ∃ e, c.ensureConnection pool = (.error e, c) := by
  unfold ensureConnection
  rw [hconn]
  cases pool with
  | notInitialized => exact ⟨_, rfl⟩
  | failed e => exact ⟨_, rfl⟩
  | acquired conn => cases hpool

/-- A method that cannot acquire a connection leaves an idle context as it is. -/
theorem SessionOp.apply_state_of_idle {c : DatabaseContextInner} (hconn : c.connection = none)
    (htx : c.inTransaction = false) {op : SessionOp} (hnone : op.acquires = none) :
    (op.apply c).ctx.state = c.state := by
  have hsql : ∀ {α : Type} (text failed : String) (pool : PoolGet) (out : Except String α),
      pool.conn? = none → ∃ e, c.runSql text failed pool out = ⟨.error e, c, []⟩ := by
    intro α text failed pool out hpool
    obtain ⟨e, he⟩ := ensureConnection_fails hconn hpool
    refine ⟨e, ?_⟩
    rw [runSql, he]
  cases op with
  | begin pool out =>
    obtain ⟨e, he⟩ := ensureConnection_fails hconn hnone
    change (c.begin pool out).ctx.state = _
    rw [DatabaseContextInner.begin, he]
  | commit out =>
    change (c.commit out).ctx.state = _
    rw [DatabaseContextInner.commit, htx]
    rfl
  | rollback out =>
    change (c.rollback out).ctx.state = _
    rw [DatabaseContextInner.rollback, htx]
    rfl
  | query sql pool out =>
    obtain ⟨e, he⟩ := hsql sql "Query failed: " pool out hnone
    change (c.runSql sql _ pool out).ctx.state = _
    rw [he]
  | queryOne sql pool out =>
    obtain ⟨e, he⟩ := hsql sql "Query failed: " pool out hnone
    change (c.runSql sql _ pool out).ctx.state = _
    rw [he]
  | execute sql pool out =>
    obtain ⟨e, he⟩ := hsql sql "Execute failed: " pool out hnone
    change (c.runSql sql _ pool out).ctx.state = _
    rw [he]
  | executeMany sql outs =>
    change (c.executeMany sql outs 0).ctx.state = _
    cases outs with
    | nil => rfl
    | cons o outs =>
      obtain ⟨e, he⟩ := hsql sql "Execute failed: " o.1 o.2 hnone
      rw [DatabaseContextInner.executeMany, DatabaseContextInner.execute, he]
  | setAutoCommit b => rfl
  | setError => rfl

namespace History

variable {s t : History} {id : Nat}

/-- What every run keeps: the finalized contexts are those that have left the map. -/
structure Inv (s : History) : Prop where
  wf : Wf s.world
  machine : ∀ i, Machine (s.world.heap i)
  finalized : ∀ i, i ∈ s.finalized ↔ i < s.world.fresh ∧ ¬ s.world.Registered i

theorem inv_start : Inv start := by
  refine ⟨wf_empty, fun i => machine_new _ _, fun i => iff_of_false nofun ?_⟩
  rintro ⟨hlt, -⟩
  exact absurd hlt (Nat.not_lt_zero i)

/-- The second half of `Terminal` follows from the first. -/
theorem Inv.terminal_iff (h : Inv s) : Terminal s ↔ ∀ id ∈ s.finalized,
    (s.world.heap id).state = .closed ∧ (s.world.heap id).connection = none := by
  refine ⟨Terminal.closed, fun hclosed => ⟨hclosed, fun id hlt hsome => ?_⟩⟩
  by_contra hnot
  rw [(hclosed id ((h.finalized id).mpr ⟨hlt, hnot⟩)).2] at hsome
  cases hsome

theorem getDb_heap (w : DbWorld) (rid a : String) {i : Nat} (hi : i < w.fresh) :
    (w.getDb rid a).2.heap i = w.heap i := by
  unfold DbWorld.getDb
  cases w.getRequestContext rid a with
  | some id => rfl
  | none => exact Function.update_of_ne (Nat.ne_of_lt hi) _ _

theorem Inv.getDb (h : Inv s) (rid a : String) :
    Inv { s with world := (s.world.getDb rid a).2 } := by
  unfold DbWorld.getDb
  cases hid : s.world.getRequestContext rid a with
  | some id => exact h
  | none =>
    have hview := getRequestContext_create s.world rid a
    refine ⟨h.wf.createRequestContext rid a, fun i => ?_, fun i => ?_⟩
    · by_cases hi : i = s.world.fresh
      · subst hi
        simp only [createRequestContext, Function.update_self]
        exact machine_new rid a
      · simp only [createRequestContext, Function.update_of_ne hi]
        exact h.machine i
    · have hreg : (s.world.createRequestContext rid a).2.Registered i ↔
          s.world.Registered i ∨ i = s.world.fresh := by
        constructor
        · rintro ⟨rid', a', hi⟩
          rw [hview] at hi
          split_ifs at hi
          · exact .inr (Option.some.inj hi).symm
          · exact .inl ⟨rid', a', hi⟩
        · rintro (⟨rid', a', hi⟩ | rfl)
          · refine ⟨rid', a', ?_⟩
            rw [hview, if_neg]
            · exact hi
            · rintro ⟨rfl, rfl⟩
              rw [hid] at hi
              cases hi
          · exact ⟨rid, a, by rw [hview, if_pos ⟨rfl, rfl⟩]⟩
      change i ∈ s.finalized ↔ i < s.world.fresh + 1 ∧ _
      rw [hreg, h.finalized, not_or]
      constructor
      · rintro ⟨hlt, hnot⟩
        exact ⟨Nat.lt_succ_of_lt hlt, hnot, Nat.ne_of_lt hlt⟩
      · rintro ⟨hlt, hnot, hne⟩
        exact ⟨Nat.lt_of_le_of_ne (Nat.le_of_lt_succ hlt) hne, hnot⟩

theorem Inv.session (h : Inv s) (id : Nat) (op : SessionOp) :
    Inv { s with world := (s.world.onContext id op.apply).2 } := by
  refine ⟨h.wf.onContext id op.apply (op.apply_name _) (op.apply_held _ (h.wf.held id)),
    fun i => ?_, h.finalized⟩
  change Machine (Function.update s.world.heap id (op.apply (s.world.heap id)).ctx i)
  by_cases hi : i = id
  · subst hi
    rw [Function.update_self]
    exact (op.apply_moves (h.machine i)).machine
  · rw [Function.update_of_ne hi]
    exact h.machine i

theorem Inv.swept (h : Inv s) {ids : List Nat} (out : Nat → Except String Unit)
    (hnodup : ids.Nodup) (hreg : ∀ i ∈ ids, s.world.Registered i) :
    Inv ⟨(finalizeEach out ids s.world).2, finalizedBy out ids s.world ++ s.finalized⟩ := by
  have hswept := Wf.swept out ids h.wf h.machine hnodup hreg
  refine ⟨hswept.wf, hswept.machine, fun i => ?_⟩
  rw [List.mem_append, h.finalized, hswept.fresh, hswept.registered]
  constructor
  · rintro (hdone | ⟨hlt, hnot⟩)
    · exact ⟨h.wf.registered_lt (hreg i (hswept.subset i hdone)), fun hr => hr.2 hdone⟩
    · exact ⟨hlt, fun hr => hnot hr.1⟩
  · rintro ⟨hlt, hnot⟩
    by_cases hr : s.world.Registered i
    · left
      by_contra hdone
      exact hnot ⟨hr, hdone⟩
    · exact .inr ⟨hlt, hr⟩

theorem finalizeRequestContext_eq (w : DbWorld) (rid a : String) (out : Except String Unit) :
    (w.finalizeRequestContext rid a out).2 =
      (finalizeEach (fun _ => out) (w.getRequestContext rid a).toList w).2 := by
  unfold finalizeRequestContext
  cases w.getRequestContext rid a with
  | none => rfl
  | some id =>
    change (w.finalize id out).2 = (finalizeEach (fun _ => out) [id] w).2
    unfold finalizeEach
    rcases w.finalize id out with ⟨e | _, w1⟩
    · rfl
    · rfl

/-- The steps, with the contexts that a finalizing call may close. -/
theorem step_cases {a : WorldAct} (h : Inv s) (hstep : step s a = some t) :
    (∃ rid dbAlias, a = .getDb rid dbAlias ∧
      t = { s with world := (s.world.getDb rid dbAlias).2 }) ∨
    (∃ id op, a = .session id op ∧ id < s.world.fresh ∧
      t = { s with world := (s.world.onContext id op.apply).2 }) ∨
    (∃ ids out, NoLateAcquire s a ∧ ids.Nodup ∧ (∀ i ∈ ids, s.world.Registered i) ∧
      t = ⟨(finalizeEach out ids s.world).2, finalizedBy out ids s.world ++ s.finalized⟩) := by
  cases a with
  | getDb rid dbAlias =>
    cases hstep
    exact .inl ⟨rid, dbAlias, rfl, rfl⟩
  | session id op =>
    change (if id < s.world.fresh then some _ else none) = some t at hstep
    split_ifs at hstep with hlt
    cases hstep
    exact .inr (.inl ⟨id, op, rfl, hlt, rfl⟩)
  | finalizeDb rid dbAlias out =>
    cases hstep
    refine .inr (.inr ⟨(s.world.getRequestContext rid dbAlias).toList, fun _ => out, trivial,
      ?_, fun i hi => ⟨rid, dbAlias, Option.mem_toList.mp hi⟩, ?_⟩)
    · cases s.world.getRequestContext rid dbAlias with
      | none => exact List.nodup_nil
      | some id => exact List.nodup_singleton id
    · rw [finalizeRequestContext_eq]
  | finalizeDbAll rid order out =>
    change (if order.isPerm _ then some _ else none) = some t at hstep
    split_ifs at hstep with hperm
    cases hstep
    have hperm := List.isPerm_iff.mp hperm
    refine .inr (.inr ⟨order, out, trivial, hperm.nodup_iff.mpr (h.wf.nodup_contextsOf rid),
      fun i hi => ?_, rfl⟩)
    obtain ⟨a, ha⟩ := mem_contextsOf.mp (hperm.mem_iff.mp hi)
    exact ⟨rid, a, ha⟩

theorem inv_step {a : WorldAct} (h : Inv s) (hstep : step s a = some t) : Inv t := by
  rcases step_cases h hstep with ⟨rid, dbAlias, -, rfl⟩ | ⟨id, op, -, -, rfl⟩ |
    ⟨ids, out, -, hnodup, hreg, rfl⟩
  · exact h.getDb rid dbAlias
  · exact h.session id op
  · exact h.swept out hnodup hreg

/-- A method on a finalized context keeps it closed exactly if it acquires no connection. -/
theorem session_closed_iff {c : DatabaseContextInner} (hm : Machine c) (hclosed : c.state = .closed)
    (hconn : c.connection = none) (op : SessionOp) :
    ((op.apply c).ctx.state = .closed ∧ (op.apply c).ctx.connection = none) ↔
      op.acquires = none := by
  have htx : c.inTransaction = false := by
    rw [← Bool.not_eq_true, hm.state, hclosed]
    exact nofun
  have hafter : (op.apply c).ctx.connection = op.acquires := by
    rw [op.apply_connection, hconn, Option.none_or]
  rw [hafter]
  refine ⟨And.right, fun hnone => ⟨?_, hnone⟩⟩
  rw [SessionOp.apply_state_of_idle hconn htx hnone, hclosed]

theorem terminal_step_iff {a : WorldAct} (h : Inv s) (hs : Terminal s) (hstep : step s a = some t) :
    Terminal t ↔ NoLateAcquire s a := by
  rw [(inv_step h hstep).terminal_iff]
  rcases step_cases h hstep with ⟨rid, dbAlias, rfl, rfl⟩ | ⟨id, op, rfl, hlt, rfl⟩ |
    ⟨ids, out, hno, hnodup, hreg, rfl⟩
  · refine iff_of_true (fun i hi => ?_) trivial
    change ((s.world.getDb rid dbAlias).2.heap i).state = _ ∧
      ((s.world.getDb rid dbAlias).2.heap i).connection = _
    rw [getDb_heap _ _ _ ((h.finalized i).mp hi).1]
    exact hs.closed i hi
  · change (∀ i ∈ s.finalized, (Function.update s.world.heap id _ i).state = _ ∧
      (Function.update s.world.heap id _ i).connection = _) ↔ _
    constructor
    · intro hall hid
      obtain ⟨hclosed, hconn⟩ := hs.closed id hid
      have hafter := hall id hid
      rw [Function.update_self] at hafter
      exact (session_closed_iff (h.machine id) hclosed hconn op).mp hafter
    · intro hno i hi
      obtain ⟨hclosed, hconn⟩ := hs.closed i hi
      by_cases hii : i = id
      · subst hii
        rw [Function.update_self]
        exact (session_closed_iff (h.machine i) hclosed hconn op).mpr (hno hi)
      · rw [Function.update_of_ne hii]
        exact ⟨hclosed, hconn⟩
  · refine iff_of_true (fun i hi => ?_) hno
    have hswept := Wf.swept out ids h.wf h.machine hnodup hreg
    rcases List.mem_append.mp hi with hdone | hi
    · exact hswept.closed i hdone
    · rw [hswept.untouched i fun hids => ((h.finalized i).mp hi).2 (hreg i hids)]
      exact hs.closed i hi

theorem terminal_start : Terminal start := ⟨nofun, fun i hlt => absurd hlt (Nat.not_lt_zero i)⟩

/-- A method can be called on every finalized context. -/
theorem noLateAcquire_of_enabled {a : WorldAct} (h : Inv s)
    (ha : ∀ t, step s a = some t → NoLateAcquire s a) : NoLateAcquire s a := by
  cases a with
  | getDb _ _ | finalizeDb _ _ _ | finalizeDbAll _ _ _ => trivial
  | session id op =>
    intro hid
    exact ha _ (if_pos ((h.finalized id).mp hid).1) hid

theorem terminal_iff_noLateAcquire (acts : List WorldAct) :
    Always step Terminal start acts ↔ Along step NoLateAcquire start acts := by
  have halways : Always step Terminal start acts ↔
      Along step (fun s a => ∀ t, step s a = some t → NoLateAcquire s a) start acts :=
    always_iff_along Inv terminal_start inv_start (fun _ _ _ h hstep => inv_step h hstep)
      fun _ _ _ h hs hstep => terminal_step_iff h hs hstep
  rw [halways]
  constructor
  · intro h
    exact h.strengthen (fun _ _ _ hs _ hstep => inv_step hs hstep)
      (fun _ _ hs ha => noLateAcquire_of_enabled hs ha) inv_start
  · exact fun h => h.mono fun _ _ ha _ _ => ha

/-- A session is used after its context was finalized. -/
def usedLate : List WorldAct :=
  [.getDb "r" "default", .session 0 (.execute "INSERT" (.acquired 1) (.ok 1)),
    .finalizeDb "r" "default" (.ok ()), .session 0 (.execute "INSERT" (.acquired 2) (.ok 1))]

theorem usedLate_holds_connection : ¬ Always step Terminal start usedLate := by
  intro h
  have hfinal : Terminal _ := (((h.2 _ rfl).2 _ rfl).2 _ rfl).2 _ rfl
  have hclosed := hfinal.closed 0 (by decide)
  exact absurd hclosed.2 (by decide)

end History

/-! ## Finalizing all contexts of a request -/

namespace DbWorld

variable {w : DbWorld} {out : Nat → Except String Unit}

/-- Every context of the request is closed and has given back its connection, and the map has no
entry for the request. -/
structure Released (w w' : DbWorld) (requestId : String) : Prop where
  contexts : ∀ i ∈ w.contextsOf requestId, (w'.heap i).state = .closed ∧
    (w'.heap i).inTransaction = false ∧ (w'.heap i).connection = none
  entry : w'.contexts.lookup requestId = none

/-- Every `COMMIT` or `ROLLBACK` that ends a transaction of the request succeeds. -/
def EndsSucceed (w : DbWorld) (requestId : String) (out : Nat → Except String Unit) : Prop :=
  ∀ i ∈ w.contextsOf requestId, (w.heap i).inTransaction = true → out i = .ok ()

theorem finalize_of_idle {c : DatabaseContextInner} (h : c.inTransaction = false)
    (out : Except String Unit) : c.finalize out = c.finalize (.ok ()) := by
  unfold DatabaseContextInner.finalize DatabaseContextInner.endTransaction
  rw [h]
  rfl

/-- A context without a transaction is finalized without asking the server. -/
theorem finalize_answer {id : Nat} {out : Except String Unit}
    (h : (w.heap id).inTransaction = true → out = .ok ()) :
    w.finalize id out = w.finalize id (.ok ()) := by
  cases htx : (w.heap id).inTransaction with
  | true => rw [h htx]
  | false =>
    have heq := finalize_of_idle htx out
    simp only [DbWorld.finalize, onContext, heq]

theorem finalizeEach_answers (ids : List Nat) {w : DbWorld} (hnodup : ids.Nodup)
    (h : ∀ i ∈ ids, (w.heap i).inTransaction = true → out i = .ok ()) :
    finalizeEach out ids w = finalizeEach (fun _ => .ok ()) ids w := by
  induction ids generalizing w with
  | nil => rfl
  | cons id ids ih =>
    obtain ⟨hnot, hnodup⟩ := List.nodup_cons.mp hnodup
    have hheap := (finalize_heap w id (.ok ())).1
    unfold finalizeEach
    rw [finalize_answer (h id List.mem_cons_self)]
    rcases hr : w.finalize id (.ok ()) with ⟨e | _, w1⟩
    · rfl
    · rw [hr] at hheap
      refine ih hnodup fun i hi => ?_
      have hne : i ≠ id := fun heq => hnot (heq ▸ hi)
      have hsame : w1.heap i = w.heap i :=
        (congrFun hheap i).trans (Function.update_of_ne hne _ _)
      rw [hsame]
      exact h i (List.mem_cons_of_mem _ hi)

/-- A transaction whose end fails stays as it was, on its connection. -/
theorem finalize_error {c : DatabaseContextInner} (hc : Held c) (htx : c.inTransaction = true)
    (e : String) : ∃ e', (c.finalize (.error e)).result = .error e' ∧
      (c.finalize (.error e)).ctx = c := by
  obtain ⟨conn, hconn⟩ := Option.isSome_iff_exists.mp (hc htx)
  have htrip : ∀ (stmt : Stmt) (failed : String) (done : DatabaseContextInner → DatabaseContextInner),
      c.roundTrip stmt failed (.error e : Except String Unit) done =
        ⟨.error (failed ++ e), c, [⟨conn, stmt, false⟩]⟩ := by
    intro stmt failed done
    rw [roundTrip, hconn]
  have hend : ∃ e' sent, c.endTransaction (.error e) = ⟨.error e', c, sent⟩ := by
    unfold DatabaseContextInner.endTransaction DatabaseContextInner.commit
      DatabaseContextInner.rollback
    rw [htrip, htrip, htx]
    cases c.hasError with
    | true => exact ⟨_, _, rfl⟩
    | false => cases c.autoCommit <;> exact ⟨_, _, rfl⟩
  obtain ⟨e', sent, hend⟩ := hend
  refine ⟨e', ?_⟩
  unfold DatabaseContextInner.finalize
  rw [hend]
  exact ⟨rfl, rfl⟩

theorem finalizeEach_keeps_failed {i : Nat} {e : String} (he : out i = .error e)
    (ids : List Nat) {w : DbWorld} (hc : Held (w.heap i)) (htx : (w.heap i).inTransaction = true) :
    (finalizeEach out ids w).2.heap i = w.heap i := by
  -- the loop ends at this context, if it does not end before
  induction ids generalizing w with
  | nil => rfl
  | cons id ids ih =>
    have hheap := (finalize_heap w id (out id)).1
    have hres := finalize_result w id (out id)
    have hsame : (w.finalize id (out id)).2.heap i = w.heap i := by
      rw [hheap]
      by_cases hi : i = id
      · subst hi
        obtain ⟨e', -, hctx⟩ := finalize_error hc htx e
        rw [Function.update_self, he, hctx]
      · exact Function.update_of_ne hi _ _
    unfold finalizeEach
    rcases hr : w.finalize id (out id) with ⟨e' | _, w1⟩ <;> rw [hr] at hsame
    · exact hsame
    · change (finalizeEach out ids w1).2.heap i = _
      have hkept : w1.heap i = w.heap i := hsame
      rw [ih (hkept ▸ hc) (hkept ▸ htx), hkept]

theorem Wf.released_iff_endsSucceed (hw : Wf w) (rid : String) {order : List Nat}
    (horder : order.Perm (w.contextsOf rid)) :
    Released w (DbWorld.finalizeEach out order w).2 rid ↔ EndsSucceed w rid out := by
  constructor
  · intro h i hi htx
    cases he : out i with
    | ok a => rfl
    | error e =>
      have hended := (h.contexts i hi).2.1
      rw [finalizeEach_keeps_failed he order (hw.held i) htx, htx] at hended
      cases hended
  · intro h
    have hnodup : order.Nodup := horder.nodup_iff.mpr (hw.nodup_contextsOf rid)
    rw [finalizeEach_answers order hnodup fun i hi => h i (horder.mem_iff.mp hi)]
    obtain ⟨w', heach, -, hentry, hdone⟩ :=
      hw.finalizeOrder_spec rid (fun _ => rfl : ∀ _ : Nat, (.ok () : Except String Unit) = .ok ())
        horder
    rw [heach]
    refine ⟨fun i hi => ?_, hentry⟩
    have hfin := hdone i (horder.mem_iff.mpr hi)
    exact ⟨hfin.closed, hfin.ended, hfin.released⟩

end DbWorld

namespace History

theorem inv_of_reaches {s : History} (h : Reaches step start s) : Inv s :=
  h.invariant (fun _ _ _ hs hstep => inv_step hs hstep) inv_start

theorem finalizeAll_releases_iff (s : History) (hs : Reaches step start s) (requestId : String)
    (order : List Nat) (horder : order.Perm (s.world.contextsOf requestId))
    (out : Nat → Except String Unit) :
    Released s.world (finalizeEach out order s.world).2 requestId ↔
      EndsSucceed s.world requestId out :=
  (inv_of_reaches hs).wf.released_iff_endsSucceed requestId horder

/-- Two contexts of one request, both in a transaction. -/
def twoOpen : List WorldAct :=
  [.getDb "r" "main", .session 0 (.begin (.acquired 1) (.ok ())),
    .getDb "r" "audit", .session 1 (.begin (.acquired 2) (.ok ()))]

def twoOpenWorld : DbWorld := ((exec step start twoOpen).getD start).world

theorem twoOpen_reached : Reaches step start ⟨twoOpenWorld, []⟩ := ⟨twoOpen, rfl⟩

theorem twoOpen_released :
    Released twoOpenWorld (finalizeEach (fun _ => .ok ()) [0, 1] twoOpenWorld).2 "r" :=
  (finalizeAll_releases_iff ⟨twoOpenWorld, []⟩ twoOpen_reached "r" [0, 1] (by decide)
    (fun _ => .ok ())).mpr fun _ _ _ => rfl

/-- The `COMMIT` of the first alias fails: neither context is released. -/
theorem failed_commit_keeps_connections :
    ¬ Released twoOpenWorld
      (finalizeEach (fun i => if i = 0 then .error "lost" else .ok ()) [0, 1] twoOpenWorld).2 "r" := by
  intro h
  have hother := (h.contexts 1 (by decide)).2.2
  exact absurd hother (by decide)

end History

end Hypern.Database
