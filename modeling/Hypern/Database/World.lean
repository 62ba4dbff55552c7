import Hypern.Database.ContextInvariant

/-! The global map seen as a partial function from a request and an alias to a context
address, and what creating, using and finalizing contexts does to it. -/

namespace Hypern.Database.DbWorld

open DatabaseContextInner

variable {α : Type} {w : DbWorld}

def sentOn (w : DbWorld) (id : Nat) : List Sent := (w.sent.filter (·.1 = id)).map (·.2)

structure Wf (w : DbWorld) : Prop where
  held : ∀ id, Held (w.heap id)
  named : ∀ rid a id, w.getRequestContext rid a = some id →
    id < w.fresh ∧ (w.heap id).requestId = rid ∧ (w.heap id).dbAlias = a
  nonempty : ∀ rid m, w.contexts.lookup rid = some m → m.entries ≠ []

theorem wf_empty : Wf empty := by
  refine ⟨fun _ => held_new _ _, fun rid a id h => ?_, fun rid m h => ?_⟩
  · simp [getRequestContext, empty] at h
  · simp [empty] at h

/-! ## The map as a partial function -/

theorem getRequestContext_create (w : DbWorld) (rid a rid' a' : String) :
    (w.createRequestContext rid a).2.getRequestContext rid' a' =
      if rid' = rid ∧ a' = a then some w.fresh else w.getRequestContext rid' a' := by
  unfold createRequestContext getRequestContext
  by_cases hr : rid' = rid
  · subst hr
    by_cases ha : a' = a
    · subst ha
      simp
    · cases hm : w.contexts.lookup rid' with
      | none => simp [ha, AList.lookup_insert_ne ha, -AList.insert_empty]
      | some m => simp [ha, AList.lookup_insert_ne ha]
  · simp [hr, AList.lookup_insert_ne]

theorem getRequestContext_remove (w : DbWorld) (rid a rid' a' : String) :
    (w.removeContext rid a).getRequestContext rid' a' =
      if rid' = rid ∧ a' = a then none else w.getRequestContext rid' a' := by
  unfold removeContext
  by_cases hr : rid' = rid
  · subst hr
    cases hm : w.contexts.lookup rid' with
    | none => simp [getRequestContext, hm]
    | some m =>
      have hview : w.getRequestContext rid' a' = m.lookup a' := by simp [getRequestContext, hm]
      have herase : (m.erase a).lookup a' = if a' = a then none else m.lookup a' := by
        by_cases ha : a' = a
        · subst ha
          simp
        · simp [ha, AList.lookup_erase_ne ha]
      simp only [true_and, hview, ← herase]
      split_ifs with he
      · have : m.erase a = ∅ := AList.ext (List.isEmpty_iff.mp he)
        simp [getRequestContext, this]
      · simp [getRequestContext]
  · cases hm : w.contexts.lookup rid with
    | none => simp [hr]
    | some m =>
      dsimp only
      split_ifs with he
      · simp_all
      · simp [getRequestContext, AList.lookup_erase_ne hr]
      · simp_all
      · simp [getRequestContext, AList.lookup_insert_ne hr]

@[simp] theorem getRequestContext_onContext (w : DbWorld) (id : Nat)
    (f : DatabaseContextInner → Reply α) (rid a : String) :
    (w.onContext id f).2.getRequestContext rid a = w.getRequestContext rid a := rfl

theorem Wf.lookup_eq_none (hw : Wf w) (rid : String) :
    w.contexts.lookup rid = none ↔ ∀ a, w.getRequestContext rid a = none := by
  refine ⟨fun h a => by simp [getRequestContext, h], fun h => ?_⟩
  cases hm : w.contexts.lookup rid with
  | none => rfl
  | some m =>
    obtain ⟨⟨a, id⟩, es, he⟩ := List.exists_cons_of_ne_nil (hw.nonempty rid m hm)
    have hl : m.lookup a = some id := AList.mem_lookup_iff.mpr (by simp [he])
    simpa [getRequestContext, hm, hl] using h a

theorem Wf.named_unique (hw : Wf w) {rid a rid' a' : String} {id : Nat}
    (h : w.getRequestContext rid a = some id) (h' : w.getRequestContext rid' a' = some id) :
    rid = rid' ∧ a = a' := by
  obtain ⟨-, hr, ha⟩ := hw.named rid a id h
  obtain ⟨-, hr', ha'⟩ := hw.named rid' a' id h'
  exact ⟨hr.symm.trans hr', ha.symm.trans ha'⟩

/-! ## The operations keep the invariant -/

theorem Wf.onContext (hw : Wf w) (id : Nat) (f : DatabaseContextInner → Reply α)
    (hname : SameName (w.heap id) (f (w.heap id)).ctx) (hheld : Held (f (w.heap id)).ctx) :
    Wf (w.onContext id f).2 := by
  refine ⟨fun i => ?_, fun rid a i h => ?_, hw.nonempty⟩
  · by_cases hi : i = id
    · subst hi
      simpa [DbWorld.onContext] using hheld
    · simpa [DbWorld.onContext, hi] using hw.held i
  · obtain ⟨hlt, hr, ha⟩ := hw.named rid a i h
    refine ⟨hlt, ?_⟩
    by_cases hi : i = id
    · subst hi
      simp only [DbWorld.onContext, Function.update_self]
      exact ⟨hname.requestId.trans hr, hname.dbAlias.trans ha⟩
    · simpa [DbWorld.onContext, hi] using ⟨hr, ha⟩

theorem Wf.createRequestContext (hw : Wf w) (rid a : String) :
    Wf (w.createRequestContext rid a).2 := by
  refine ⟨fun i => ?_, fun rid' a' i h => ?_, fun rid' m h => ?_⟩
  · by_cases hi : i = w.fresh
    · subst hi
      simpa [DbWorld.createRequestContext] using held_new rid a
    · simpa [DbWorld.createRequestContext, hi] using hw.held i
  · rw [getRequestContext_create] at h
    split_ifs at h with hk
    · obtain ⟨rfl, rfl⟩ := hk
      obtain rfl := Option.some.inj h
      simp [DbWorld.createRequestContext, new]
    · obtain ⟨hlt, hr, ha⟩ := hw.named rid' a' i h
      have hi : i ≠ w.fresh := Nat.ne_of_lt hlt
      simp only [DbWorld.createRequestContext, Function.update_of_ne hi]
      exact ⟨by omega, hr, ha⟩
  · by_cases hr : rid' = rid
    · subst hr
      simp only [DbWorld.createRequestContext, AList.lookup_insert, Option.some.injEq] at h
      subst h
      simp [AList.entries_insert]
    · simp only [DbWorld.createRequestContext, AList.lookup_insert_ne hr] at h
      exact hw.nonempty rid' m h

theorem Wf.getDb (hw : Wf w) (rid a : String) : Wf (w.getDb rid a).2 := by
  unfold DbWorld.getDb
  split
  · exact hw
  · exact hw.createRequestContext rid a

theorem removeContext_frame (w : DbWorld) (rid a : String) :
    (w.removeContext rid a).heap = w.heap ∧ (w.removeContext rid a).fresh = w.fresh ∧
      (w.removeContext rid a).sent = w.sent := by
  unfold removeContext
  split
  · exact ⟨rfl, rfl, rfl⟩
  · split_ifs <;> exact ⟨rfl, rfl, rfl⟩

theorem Wf.removeContext (hw : Wf w) (rid a : String) : Wf (w.removeContext rid a) := by
  refine ⟨fun i => ?_, fun rid' a' i h => ?_, fun rid' m' h => ?_⟩
  · rw [(removeContext_frame w rid a).1]
    exact hw.held i
  · rw [getRequestContext_remove] at h
    split_ifs at h
    rw [(removeContext_frame w rid a).1, (removeContext_frame w rid a).2.1]
    exact hw.named rid' a' i h
  · unfold DbWorld.removeContext at h
    cases hm : w.contexts.lookup rid with
    | none =>
      rw [hm] at h
      exact hw.nonempty rid' m' h
    | some m =>
      rw [hm] at h
      by_cases hr : rid' = rid
      · subst hr
        dsimp only at h
        split_ifs at h with he
        · simp at h
        · obtain rfl : m.erase a = m' := by simpa using h
          simpa using he
      · refine hw.nonempty rid' m' ?_
        dsimp only at h
        split_ifs at h
        · rwa [AList.lookup_erase_ne hr] at h
        · rwa [AList.lookup_insert_ne hr] at h

/-! ## Contexts keep their names -/

/-- Every context that exists before a step exists after it under the same name. -/
structure Extends (w w' : DbWorld) : Prop where
  fresh_le : w.fresh ≤ w'.fresh
  name : ∀ i < w.fresh, SameName (w.heap i) (w'.heap i)

theorem Extends.refl (w : DbWorld) : Extends w w := ⟨le_rfl, fun _ _ => .refl _⟩

theorem Extends.trans {a b c : DbWorld} (h : Extends a b) (h' : Extends b c) : Extends a c :=
  ⟨Nat.le_trans h.fresh_le h'.fresh_le,
    fun i hi => (h.name i hi).trans (h'.name i (Nat.lt_of_lt_of_le hi h.fresh_le))⟩

theorem extends_onContext (w : DbWorld) (id : Nat) (f : DatabaseContextInner → Reply α)
    (hname : SameName (w.heap id) (f (w.heap id)).ctx) : Extends w (w.onContext id f).2 := by
  refine ⟨le_rfl, fun i _ => ?_⟩
  by_cases hi : i = id
  · subst hi
    simpa [DbWorld.onContext] using hname
  · simpa [DbWorld.onContext, hi] using SameName.refl (w.heap i)

theorem extends_getDb (w : DbWorld) (rid a : String) : Extends w (w.getDb rid a).2 := by
  unfold DbWorld.getDb
  split
  · exact .refl w
  · refine ⟨Nat.le_succ _, fun i hi => ?_⟩
    simpa [DbWorld.createRequestContext, Function.update_of_ne (Nat.ne_of_lt hi)] using
      SameName.refl (w.heap i)

theorem Wf.getDb_name (hw : Wf w) (rid a : String) :
    (w.getDb rid a).1 < (w.getDb rid a).2.fresh ∧
      ((w.getDb rid a).2.heap (w.getDb rid a).1).requestId = rid := by
  unfold DbWorld.getDb
  split
  next id hid =>
    obtain ⟨hlt, hr, -⟩ := hw.named rid a id hid
    exact ⟨hlt, hr⟩
  next => simp [DbWorld.createRequestContext, new]

theorem Wf.finalize (hw : Wf w) (id : Nat) (out : Except String Unit) :
    Wf (w.finalize id out).2 ∧ Extends w (w.finalize id out).2 := by
  have hwf : Wf (w.onContext id (·.finalize out)).2 :=
    hw.onContext id _ (finalize_name _ out) (finalize_held out (hw.held id))
  have hext := extends_onContext w id (·.finalize out) (finalize_name _ out)
  unfold DbWorld.finalize
  rcases hr : w.onContext id (·.finalize out) with ⟨_ | _, w1⟩ <;> rw [hr] at hwf hext
  · exact ⟨hwf, hext⟩
  · refine ⟨hwf.removeContext _ _, ?_⟩
    obtain ⟨hheap, hfresh, -⟩ :=
      removeContext_frame w1 (w1.heap id).requestId (w1.heap id).dbAlias
    exact ⟨hfresh ▸ hext.fresh_le, fun i hi => hheap ▸ hext.name i hi⟩

theorem Wf.finalizeEach (out : Nat → Except String Unit) (ids : List Nat) {w : DbWorld}
    (hw : Wf w) :
    Wf (DbWorld.finalizeEach out ids w).2 ∧ Extends w (DbWorld.finalizeEach out ids w).2 := by
  induction ids generalizing w with
  | nil => exact ⟨hw, .refl w⟩
  | cons id ids ih =>
    obtain ⟨hwf, hext⟩ := hw.finalize id (out id)
    unfold DbWorld.finalizeEach
    rcases hr : w.finalize id (out id) with ⟨_ | _, w1⟩ <;> rw [hr] at hwf hext
    · exact ⟨hwf, hext⟩
    · exact ⟨(ih hwf).1, hext.trans (ih hwf).2⟩

theorem Wf.finalizeAll (hw : Wf w) (rid : String) (out : Nat → Except String Unit) :
    Wf (w.finalizeAllRequestContexts rid out).2 ∧
      Extends w (w.finalizeAllRequestContexts rid out).2 := by
  unfold finalizeAllRequestContexts
  split
  · exact hw.finalizeEach out _
  · exact ⟨hw, .refl w⟩

/-! ## Finalizing a request -/

def lastStmt (c : DatabaseContextInner) : Stmt :=
  if c.hasError || !c.autoCommit then .rollback else .commit

def lastSent (c : DatabaseContextInner) : List Sent :=
  match c.inTransaction, c.connection with
  | true, some conn => [⟨conn, lastStmt c, true⟩]
  | _, _ => []

theorem finalize_ok {c : DatabaseContextInner} (hc : Held c) :
    ∃ c', c.finalize (.ok ()) = ⟨.ok (), c', lastSent c⟩ ∧ SameName c c' ∧
      c'.state = .closed ∧ c'.connection = none ∧ c'.inTransaction = false := by
  unfold DatabaseContextInner.finalize endTransaction lastSent lastStmt
  cases htx : c.inTransaction with
  | false => exact ⟨_, rfl, ⟨rfl, rfl⟩, rfl, rfl, htx⟩
  | true =>
    obtain ⟨conn, hconn⟩ := Option.isSome_iff_exists.mp (hc htx)
    cases he : c.hasError <;> cases ha : c.autoCommit <;>
      simp only [rollback, commit, htx, hconn, roundTrip_ok hconn, Bool.not_true, Bool.not_false,
        Bool.or_true, Bool.or_false, if_true, if_false, Bool.false_eq_true] <;>
      exact ⟨_, rfl, ⟨rfl, rfl⟩, rfl, rfl, rfl⟩

theorem sentOn_append (w : DbWorld) (id id' : Nat) (l : List Sent) (heap : Nat → DatabaseContextInner) :
    ({ w with heap := heap, sent := w.sent ++ l.map (id', ·) } : DbWorld).sentOn id =
      w.sentOn id ++ if id' = id then l else [] := by
  by_cases h : id' = id
  · simp [sentOn, h, List.filter_map, Function.comp_def]
  · simp [sentOn, h, List.filter_map, Function.comp_def]

structure Finalized (w w' : DbWorld) (id : Nat) : Prop where
  closed : (w'.heap id).state = .closed
  released : (w'.heap id).connection = none
  ended : (w'.heap id).inTransaction = false
  sent : w'.sentOn id = w.sentOn id ++ lastSent (w.heap id)

/-- A context that a step leaves alone. -/
def Untouched (w w' : DbWorld) (id : Nat) : Prop :=
  w'.heap id = w.heap id ∧ w'.sentOn id = w.sentOn id

theorem Wf.finalize_spec (hw : Wf w) {rid a : String} {id : Nat}
    (hid : w.getRequestContext rid a = some id) :
    ∃ w', w.finalize id (.ok ()) = (.ok (), w') ∧ Wf w' ∧ Finalized w w' id ∧
      (∀ i, i ≠ id → Untouched w w' i) ∧
      ∀ rid' a', w'.getRequestContext rid' a' =
        if rid' = rid ∧ a' = a then none else w.getRequestContext rid' a' := by
  obtain ⟨c', hfin, hname, hclosed, hconn, htx⟩ := finalize_ok (hw.held id)
  obtain ⟨-, hr, ha⟩ := hw.named rid a id hid
  have hw1 : Wf (w.onContext id (·.finalize (.ok ()))).2 := by
    apply hw.onContext <;> rw [hfin]
    · exact hname
    · intro h
      simp [htx] at h
  have heq : w.finalize id (.ok ()) =
      (.ok (), (w.onContext id (·.finalize (.ok ()))).2.removeContext rid a) := by
    simp only [DbWorld.finalize, DbWorld.onContext, hfin, Function.update_self, hname.requestId,
      hname.dbAlias, hr, ha]
  obtain ⟨hheap, -, hsent⟩ :=
    removeContext_frame (w.onContext id (·.finalize (.ok ()))).2 rid a
  have hupd : ((w.onContext id (·.finalize (.ok ()))).2.removeContext rid a).heap =
      Function.update w.heap id c' := hheap.trans (by simp only [DbWorld.onContext, hfin])
  have hsentOn (i : Nat) :
      ((w.onContext id (·.finalize (.ok ()))).2.removeContext rid a).sentOn i =
        w.sentOn i ++ if id = i then lastSent (w.heap id) else [] := by
    unfold sentOn
    rw [hsent]
    simp only [DbWorld.onContext, hfin]
    exact sentOn_append w i id _ w.heap
  refine ⟨_, heq, hw1.removeContext rid a, ⟨?_, ?_, ?_, by simp [hsentOn]⟩, fun i hi => ⟨?_, ?_⟩,
    fun rid' a' => ?_⟩
  · rw [hupd, Function.update_self, hclosed]
  · rw [hupd, Function.update_self, hconn]
  · rw [hupd, Function.update_self, htx]
  · rw [hupd, Function.update_of_ne hi]
  · simp [hsentOn, Ne.symm hi]
  · rw [getRequestContext_remove, getRequestContext_onContext]

theorem Wf.finalizeEach_spec (rid : String) {out : Nat → Except String Unit}
    (hout : ∀ i, out i = .ok ()) (ids : List Nat) {w : DbWorld} (hw : Wf w) (hnodup : ids.Nodup)
    (hids : ∀ i ∈ ids, ∃ a, w.getRequestContext rid a = some i) :
    ∃ w', DbWorld.finalizeEach out ids w = (.ok (), w') ∧ Wf w' ∧ (∀ i ∈ ids, Finalized w w' i) ∧
      (∀ i ∉ ids, Untouched w w' i) ∧
      ∀ rid' a' i, w'.getRequestContext rid' a' = some i ↔
        w.getRequestContext rid' a' = some i ∧ i ∉ ids := by
  -- the induction is on the contexts still to be finalized; `out` makes every step succeed
  induction ids generalizing w with
  | nil => exact ⟨w, rfl, hw, by simp, fun _ _ => ⟨rfl, rfl⟩, by simp⟩
  | cons id ids ih =>
    obtain ⟨hnot, hnodup⟩ := List.nodup_cons.mp hnodup
    obtain ⟨a, hid⟩ := hids id List.mem_cons_self
    obtain ⟨w1, hfin, hw1, hdone, hother, hview⟩ := hw.finalize_spec hid
    have hview' (rid' a' : String) (i : Nat) : w1.getRequestContext rid' a' = some i ↔
        w.getRequestContext rid' a' = some i ∧ i ≠ id := by
      rw [hview]
      split_ifs with hk
      · obtain ⟨rfl, rfl⟩ := hk
        simp [hid, eq_comm]
      · refine ⟨fun h => ⟨h, fun hi => hk ?_⟩, And.left⟩
        subst hi
        exact hw.named_unique h hid
    have hids1 : ∀ i ∈ ids, ∃ a, w1.getRequestContext rid a = some i := by
      intro i hi
      obtain ⟨a', ha'⟩ := hids i (List.mem_cons_of_mem _ hi)
      exact ⟨a', (hview' rid a' i).mpr ⟨ha', fun h => hnot (h ▸ hi)⟩⟩
    obtain ⟨w2, heach, hw2, hdone2, hother2, hview2⟩ := ih hw1 hnodup hids1
    refine ⟨w2, by simp [DbWorld.finalizeEach, hout, hfin, heach], hw2, fun i hi => ?_, fun i hi => ?_,
      fun rid' a' i => ?_⟩
    · obtain rfl | hi := List.mem_cons.mp hi
      · obtain ⟨hheap, hs⟩ := hother2 i hnot
        exact ⟨hheap ▸ hdone.closed, hheap ▸ hdone.released, hheap ▸ hdone.ended,
          hs.trans hdone.sent⟩
      · obtain ⟨hheap, hs⟩ := hother i fun h => hnot (h ▸ hi)
        have h := hdone2 i hi
        exact ⟨h.closed, h.released, h.ended, by rw [h.sent, hheap, hs]⟩
    · rw [List.mem_cons, not_or] at hi
      obtain ⟨hheap, hs⟩ := hother i hi.1
      obtain ⟨hheap2, hs2⟩ := hother2 i hi.2
      exact ⟨hheap2.trans hheap, hs2.trans hs⟩
    · rw [hview2, hview', List.mem_cons, not_or, and_assoc]

/-- The contexts that the map has for a request. -/
def contextsOf (w : DbWorld) (rid : String) : List Nat :=
  match w.contexts.lookup rid with
  | some m => m.entries.map (·.2)
  | none => []

theorem mem_contextsOf {rid : String} {i : Nat} :
    i ∈ w.contextsOf rid ↔ ∃ a, w.getRequestContext rid a = some i := by
  unfold contextsOf getRequestContext
  cases hm : w.contexts.lookup rid with
  | none => exact iff_of_false nofun nofun
  | some m =>
    constructor
    · intro hi
      obtain ⟨⟨a, i⟩, he, rfl⟩ := List.mem_map.mp hi
      exact ⟨a, AList.mem_lookup_iff.mpr he⟩
    · rintro ⟨a, ha⟩
      exact List.mem_map.mpr ⟨⟨a, i⟩, AList.mem_lookup_iff.mp ha, rfl⟩

theorem Wf.nodup_contextsOf (hw : Wf w) (rid : String) : (w.contextsOf rid).Nodup := by
  unfold contextsOf
  cases hm : w.contexts.lookup rid with
  | none => exact List.nodup_nil
  | some m =>
    have hview {a : String} {i : Nat} (h : ⟨a, i⟩ ∈ m.entries) :
        w.getRequestContext rid a = some i := by
      rw [getRequestContext, hm, Option.bind_some]
      exact AList.mem_lookup_iff.mpr h
    refine List.Nodup.map_on (fun x hx y hy hxy => ?_) m.nodupKeys.nodup
    obtain ⟨a, i⟩ := x
    obtain ⟨a', i'⟩ := y
    obtain rfl : i = i' := hxy
    obtain ⟨-, rfl⟩ := hw.named_unique (hview hx) (hview hy)
    rfl

theorem finalizeAll_eq (w : DbWorld) (rid : String) (out : Nat → Except String Unit) :
    w.finalizeAllRequestContexts rid out = finalizeEach out (w.contextsOf rid) w := by
  unfold finalizeAllRequestContexts contextsOf
  cases w.contexts.lookup rid with
  | none => rfl
  | some m => rfl

/-- The order in which a hash map gives its entries makes no difference to the result. -/
theorem Wf.finalizeOrder_spec (hw : Wf w) (rid : String) {out : Nat → Except String Unit}
    (hout : ∀ i, out i = .ok ()) {order : List Nat} (horder : order.Perm (w.contextsOf rid)) :
    ∃ w', DbWorld.finalizeEach out order w = (.ok (), w') ∧ Wf w' ∧
      w'.contexts.lookup rid = none ∧
      ∀ i ∈ order, Finalized w w' i := by
  have hnodup : order.Nodup := horder.nodup_iff.mpr (hw.nodup_contextsOf rid)
  obtain ⟨w', heach, hw', hdone, -, hview⟩ := Wf.finalizeEach_spec rid hout order hw hnodup
    fun i hi => mem_contextsOf.mp (horder.mem_iff.mp hi)
  refine ⟨w', heach, hw', (hw'.lookup_eq_none rid).mpr fun a => ?_, hdone⟩
  by_contra hne
  obtain ⟨i, hi⟩ := Option.ne_none_iff_exists'.mp hne
  obtain ⟨hold, hnot⟩ := (hview rid a i).mp hi
  exact hnot (horder.mem_iff.mpr (mem_contextsOf.mpr ⟨a, hold⟩))

theorem Wf.finalizeAll_spec (hw : Wf w) (rid : String) {out : Nat → Except String Unit}
    (hout : ∀ i, out i = .ok ()) :
    ∃ w', w.finalizeAllRequestContexts rid out = (.ok (), w') ∧ Wf w' ∧
      w'.contexts.lookup rid = none ∧
      ∀ a i, w.getRequestContext rid a = some i → Finalized w w' i := by
  obtain ⟨w', heach, hw', hnone, hdone⟩ := hw.finalizeOrder_spec rid hout (List.Perm.refl _)
  refine ⟨w', (finalizeAll_eq w rid out).trans heach, hw', hnone, fun a i h => ?_⟩
  exact hdone i (mem_contextsOf.mpr ⟨a, h⟩)

end Hypern.Database.DbWorld
