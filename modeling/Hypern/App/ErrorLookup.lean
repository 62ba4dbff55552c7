import Hypern.App.WrapHandler
import Mathlib.Data.List.Perm.Basic

/-! Which of the registered error handlers is given an exception, for every order in which they
were registered. -/

namespace Hypern.Application

open Python

namespace ExceptionHandler

/-- Assigning to a key that the dictionary has keeps its place. -/
def addHandler (eh : ExceptionHandler) (cls : String) (handler : PyObject) : ExceptionHandler :=
  if eh.handlers.any (·.1 == cls) then
    { eh with handlers := eh.handlers.map fun h => if h.1 == cls then (cls, handler) else h }
  else { eh with handlers := eh.handlers ++ [(cls, handler)] }

/-- The decorator that `handle(exc_class)` returns, applied to `func`. -/
def handle (eh : ExceptionHandler) (cls : String) (func : PyObject) : ExceptionHandler :=
  eh.addHandler cls func

end ExceptionHandler

inductive ErrorRegistration
  | handle (cls : String) (func : PyObject)
  | addHandler (cls : String) (handler : PyObject)

namespace ErrorRegistration

def pair : ErrorRegistration → String × PyObject
  | .handle cls func => (cls, func)
  | .addHandler cls handler => (cls, handler)

def register (eh : ExceptionHandler) : ErrorRegistration → ExceptionHandler
  | .handle cls func => eh.handle cls func
  | .addHandler cls handler => eh.addHandler cls handler

end ErrorRegistration

def withHandlers (default : Option PyObject) (rs : List ErrorRegistration) : ExceptionHandler :=
  rs.foldl ErrorRegistration.register ⟨[], default⟩

def handlerOf (pairs : List (String × PyObject)) (cls : String) : Option PyObject :=
  (pairs.find? (·.1 == cls)).map (·.2)

/-- The handler of the first class in the method resolution order that has one. -/
def nearestHandler (pairs : List (String × PyObject)) (default : Option PyObject) (e : PyExc) :
    Option PyObject :=
  match e.mro.findSome? (handlerOf pairs) with
  | some handler => some handler
  | none => default

/-- However the pairs are registered, the nearest handler is the one that is found. -/
def OrderFree (pairs : List (String × PyObject)) (default : Option PyObject) (e : PyExc) : Prop :=
  ∀ rs : List ErrorRegistration, (rs.map (·.pair)).Perm pairs →
    (withHandlers default rs).getHandler e = nearestHandler pairs default e

/-- The exception's own class is registered, or its classes that are registered all have the
same handler. -/
def Unambiguous (pairs : List (String × PyObject)) (e : PyExc) : Prop :=
  (∃ p ∈ pairs, e.mro.head? = some p.1) ∨
    ∀ p ∈ pairs, ∀ q ∈ pairs, p.1 ∈ e.mro → q.1 ∈ e.mro → p.2 = q.2

/-! ## Registering -/

theorem handlers_register {eh : ExceptionHandler} {r : ErrorRegistration}
    (h : r.pair.1 ∉ eh.handlers.map Prod.fst) :
    r.register eh = ⟨eh.handlers ++ [r.pair], eh.defaultHandler⟩ := by
  have hnew : eh.handlers.any (·.1 == r.pair.1) = false := by
    rw [List.any_eq_false]
    exact fun p hp heq => h (List.mem_map.mpr ⟨p, hp, by simpa using heq⟩)
  cases r with
  | handle cls func => exact if_neg (Bool.eq_false_iff.mp hnew)
  | addHandler cls handler => exact if_neg (Bool.eq_false_iff.mp hnew)

theorem withHandlers_eq {default : Option PyObject} (rs : List ErrorRegistration)
    (h : ((rs.map (·.pair)).map Prod.fst).Nodup) :
    withHandlers default rs = ⟨rs.map (·.pair), default⟩ := by
  have hgo : ∀ (eh : ExceptionHandler),
      ((eh.handlers ++ rs.map (·.pair)).map Prod.fst).Nodup →
      rs.foldl ErrorRegistration.register eh =
        ⟨eh.handlers ++ rs.map (·.pair), eh.defaultHandler⟩ := by
    clear h
    induction rs with
    | nil => exact fun eh _ => by rw [List.map_nil, List.append_nil]; rfl
    | cons r rs ih =>
      intro eh hnodup
      rw [List.map_cons, List.append_cons] at hnodup ⊢
      have hfresh : r.pair.1 ∉ eh.handlers.map Prod.fst := by
        rw [List.map_append, List.map_append] at hnodup
        have hdisjoint := List.disjoint_of_nodup_append hnodup.of_append_left
        exact fun hmem => hdisjoint hmem (List.mem_singleton_self _)
      rw [List.foldl_cons, handlers_register hfresh]
      exact ih ⟨eh.handlers ++ [r.pair], eh.defaultHandler⟩ hnodup
  exact hgo ⟨[], default⟩ h

/-! ## Looking up -/

variable {pairs : List (String × PyObject)} {default : Option PyObject} {e : PyExc}

theorem handlerOf_of_mem (h : (pairs.map Prod.fst).Nodup) {p : String × PyObject}
    (hp : p ∈ pairs) : handlerOf pairs p.1 = some p.2 := by
  unfold handlerOf
  cases hfind : pairs.find? (·.1 == p.1) with
  | none => exact absurd (List.find?_eq_none.mp hfind p hp) (by simp)
  | some q =>
    have hkey : q.1 = p.1 := by simpa using List.find?_some hfind
    rw [List.inj_on_of_nodup_map h (List.mem_of_find?_eq_some hfind) hp hkey]
    rfl

theorem mem_of_handlerOf {cls : String} {handler : PyObject}
    (h : handlerOf pairs cls = some handler) : (cls, handler) ∈ pairs := by
  obtain ⟨q, hfind, rfl⟩ := Option.map_eq_some_iff.mp h
  have hkey : q.1 = cls := by simpa using List.find?_some hfind
  rw [← hkey]
  exact List.mem_of_find?_eq_some hfind

/-- A registered class of the exception has the nearest handler, where all of them have it. -/
theorem nearestHandler_of_mem (h : (pairs.map Prod.fst).Nodup) {p : String × PyObject}
    (hp : p ∈ pairs) (hmro : p.1 ∈ e.mro)
    (hsame : ∀ q ∈ pairs, q.1 ∈ e.mro → q.2 = p.2) : nearestHandler pairs default e = some p.2 := by
  unfold nearestHandler
  cases hfind : e.mro.findSome? (handlerOf pairs) with
  | none =>
    have hnone := List.findSome?_eq_none_iff.mp hfind p.1 hmro
    rw [handlerOf_of_mem h hp] at hnone
    cases hnone
  | some handler =>
    obtain ⟨cls, hcls, hhandler⟩ := List.exists_of_findSome?_eq_some hfind
    exact congrArg some (hsame (cls, handler) (mem_of_handlerOf hhandler) hcls)

theorem nearestHandler_of_head (h : (pairs.map Prod.fst).Nodup) {p : String × PyObject}
    (hp : p ∈ pairs) (hhead : e.mro.head? = some p.1) :
    nearestHandler pairs default e = some p.2 := by
  obtain ⟨rest, hmro⟩ := List.head?_eq_some_iff.mp hhead
  unfold nearestHandler
  rw [hmro, List.findSome?_cons, handlerOf_of_mem h hp]

theorem nearestHandler_of_none (hnone : ∀ p ∈ pairs, p.1 ∉ e.mro) :
    nearestHandler pairs default e = default := by
  have hfind : e.mro.findSome? (handlerOf pairs) = none := by
    refine List.findSome?_eq_none_iff.mpr fun cls hcls => ?_
    cases hhandler : handlerOf pairs cls with
    | none => rfl
    | some handler => exact absurd hcls (hnone _ (mem_of_handlerOf hhandler))
  unfold nearestHandler
  rw [hfind]

/-- The exception's own class comes first, then the registered classes in their order. -/
theorem getHandler_eq (default : Option PyObject) : (⟨pairs, default⟩ : ExceptionHandler).getHandler e =
    match pairs.find? fun p => e.mro.head? == some p.1 with
    | some p => some p.2
    | none =>
      match pairs.find? fun p => e.mro.contains p.1 with
      | some p => some p.2
      | none => default := rfl

theorem getHandler_of_head (h : (pairs.map Prod.fst).Nodup) {p : String × PyObject}
    (hp : p ∈ pairs) (hhead : e.mro.head? = some p.1) :
    (⟨pairs, default⟩ : ExceptionHandler).getHandler e = some p.2 := by
  rw [getHandler_eq]
  cases hfind : pairs.find? fun p => e.mro.head? == some p.1 with
  | none => exact absurd (List.find?_eq_none.mp hfind p hp) (by simp [hhead])
  | some q =>
    have hkey : e.mro.head? = some q.1 := by simpa using List.find?_some hfind
    have hsame : q = p := List.inj_on_of_nodup_map h (List.mem_of_find?_eq_some hfind) hp
      (Option.some.inj (hkey.symm.trans hhead))
    rw [hsame]

theorem getHandler_of_no_head (hhead : ∀ p ∈ pairs, e.mro.head? ≠ some p.1) :
    (⟨pairs, default⟩ : ExceptionHandler).getHandler e =
      match pairs.find? fun p => e.mro.contains p.1 with
      | some p => some p.2
      | none => default := by
  have hfind : (pairs.find? fun p => e.mro.head? == some p.1) = none :=
    List.find?_eq_none.mpr fun p hp heq => hhead p hp (by simpa using heq)
  rw [getHandler_eq, hfind]

theorem orderFree_iff_pairs (h : (pairs.map Prod.fst).Nodup) : OrderFree pairs default e ↔
    ∀ order : List (String × PyObject), order.Perm pairs →
      (⟨order, default⟩ : ExceptionHandler).getHandler e = nearestHandler pairs default e := by
  have hkeys {order : List (String × PyObject)} (hperm : order.Perm pairs) :
      (order.map Prod.fst).Nodup := (hperm.map Prod.fst).nodup_iff.mpr h
  constructor
  · intro hfree order hperm
    have hpairs : (order.map fun p => ErrorRegistration.addHandler p.1 p.2).map (·.pair) = order := by
      rw [List.map_map]
      exact List.map_id order
    have hfound := hfree (order.map fun p => .addHandler p.1 p.2) (by rwa [hpairs])
    rwa [withHandlers_eq _ (by rw [hpairs]; exact hkeys hperm), hpairs] at hfound
  · intro hall rs hperm
    rw [withHandlers_eq rs (hkeys hperm)]
    exact hall _ hperm

/-- The order does not matter exactly where there is no choice between handlers. -/
theorem orderFree_iff_unambiguous (h : (pairs.map Prod.fst).Nodup) :
    OrderFree pairs default e ↔ Unambiguous pairs e := by
  rw [orderFree_iff_pairs h]
  constructor
  · intro hfree
    by_cases hhead : ∃ p ∈ pairs, e.mro.head? = some p.1
    · exact .inl hhead
    · refine .inr fun p hp q hq hpmro hqmro => ?_
      have hfirst {r : String × PyObject} (hr : r ∈ pairs) (hmro : r.1 ∈ e.mro) :
          nearestHandler pairs default e = some r.2 := by
        -- the order in which `r` is registered first
        obtain ⟨before, after, hsplit⟩ := List.append_of_mem hr
        have hperm : (r :: (before ++ after)).Perm pairs := hsplit ▸ List.perm_middle.symm
        have hnohead : ∀ s ∈ r :: (before ++ after), e.mro.head? ≠ some s.1 :=
          fun s hs heq => hhead ⟨s, hperm.subset hs, heq⟩
        rw [← hfree _ hperm, getHandler_of_no_head hnohead,
          List.find?_cons_of_pos (by simpa using hmro)]
      exact Option.some.inj ((hfirst hp hpmro).symm.trans (hfirst hq hqmro))
  · rintro hclear order hperm
    have hkeys : (order.map Prod.fst).Nodup := (hperm.map Prod.fst).nodup_iff.mpr h
    by_cases hhead : ∃ p ∈ pairs, e.mro.head? = some p.1
    · obtain ⟨p, hp, hp'⟩ := hhead
      rw [getHandler_of_head hkeys (hperm.mem_iff.mpr hp) hp', nearestHandler_of_head h hp hp']
    · have hsame := hclear.resolve_left hhead
      have hnohead : ∀ s ∈ order, e.mro.head? ≠ some s.1 :=
        fun s hs heq => hhead ⟨s, hperm.subset hs, heq⟩
      rw [getHandler_of_no_head hnohead]
      cases hfind : order.find? fun p => e.mro.contains p.1 with
      | none =>
        refine (nearestHandler_of_none fun p hp hmro => ?_).symm
        exact List.find?_eq_none.mp hfind p (hperm.mem_iff.mpr hp) (by simpa using hmro)
      | some p =>
        have hp : p ∈ pairs := hperm.subset (List.mem_of_find?_eq_some hfind)
        have hmro : p.1 ∈ e.mro := by simpa using List.find?_some hfind
        exact (nearestHandler_of_mem h hp hmro fun q hq hq' => hsame q hq p hp hq' hmro).symm

def errorPage (id : Nat) : PyObject := asyncDef id 3 fun _ => .ret ()

/-- A catch-all and a handler for the exceptions with a status. -/
def errorPages : List (String × PyObject) :=
  [("Exception", errorPage 0), ("HTTPException", errorPage 1)]

def httpException : PyExc :=
  ⟨["HTTPException", "Exception", "BaseException", "object"], "Teapot"⟩

def notFound : PyExc := ⟨"NotFound" :: httpException.mro, "Not Found"⟩

theorem own_class_order_free : OrderFree errorPages none httpException :=
  (orderFree_iff_unambiguous (by decide)).mpr
    (.inl ⟨_, List.mem_cons_of_mem _ (List.mem_singleton_self _), rfl⟩)

/-- Registered first, the catch-all is given the exceptions of the other handler. -/
theorem catch_all_shadows :
    ¬ ∀ (pairs : List (String × PyObject)) (default : Option PyObject) (e : PyExc),
      (pairs.map Prod.fst).Nodup → OrderFree pairs default e := by
  intro h
  have hfound := h errorPages none notFound (by decide)
    [.handle "Exception" (errorPage 0), .handle "HTTPException" (errorPage 1)] (List.Perm.refl _)
  exact absurd (congrArg (Option.map (·.id)) hfound) (by decide)

end Hypern.Application
