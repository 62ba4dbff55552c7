import Hypern.Core.Context
import Hypern.Lib.Fallible
import Hypern.Python.Any

/-! `context.rs`: the values of a context, on their way in and out. -/

namespace Hypern.Core

open Lib Python

variable {F : F64}

/-- A type-erased value. `from_py` makes neither a `dict` nor a `list`. -/
inductive DIValue (F : F64)
  | string (s : String)
  | int (i : Int64)
  | float (f : F.Carrier)
  | bool (b : Bool)
  | bytes (b : List UInt8)
  | pyObject (obj : PyAny F)
  | dict (map : List (String × DIValue F))
  | list (items : List (DIValue F))
  | none

namespace DIValue

def intoPy : DIValue F → PyAny F
  | .string s => .str (.ofString s)
  | .int i => .int i.toInt
  | .float f => .float f
  | .bool b => .bool b
  | .bytes b => .bytes b
  | .pyObject obj => obj
  | .dict map => .dict (map.map fun e => (.str (.ofString e.1), intoPy e.2))
  | .list items => .list (items.map intoPy)
  | .none => .none
decreasing_by
  · exact Nat.lt_of_lt_of_le (sizeOf_snd_lt (by assumption)) (by simp)
  · exact Nat.lt_of_lt_of_le (List.sizeOf_lt_of_mem (by assumption)) (by simp)

/-- The extractions are tried in this order. -/
def fromPy (obj : PyAny F) : DIValue F :=
  if obj.isNone then .none
  else match obj.extractString with
  | some s => .string s
  | Option.none =>
    match obj.extractBool with
    | some b => .bool b
    | Option.none =>
      match obj.extractI64 with
      | some i => .int i
      | Option.none =>
        match obj.extractF64 with
        | some f => .float f
        | Option.none =>
          match obj.extractVec with
          | some b => .bytes b
          | Option.none => .pyObject obj

end DIValue

/-- No extraction succeeds. -/
def Opaque (v : PyAny F) : Prop :=
  v.extractString = none ∧ v.extractBool = none ∧ v.extractI64 = none ∧ v.extractF64 = none ∧
    v.extractVec = none

/-- An integer has to fit, and an object that is not of one of the scalar types must not be
readable as one of them. -/
def Keepable : PyAny F → Prop
  | .int i => -2 ^ 63 ≤ i ∧ i < 2 ^ 63
  | .list items => ∃ v ∈ items, v.extractU8 = none
  | .tuple items => ∃ v ∈ items, v.extractU8 = none
  | .foreign o => Opaque (.foreign o)
  | _ => True

namespace DIValue

/-- What is read as a scalar comes back as one. -/
theorem fromPy_foreign_iff (o : Foreign F) :
    (fromPy (.foreign o)).intoPy = .foreign o ↔ Opaque (.foreign o : PyAny F) := by
  cases hstring : (PyAny.foreign o).extractString with
  | some s => simp [fromPy, PyAny.isNone, Opaque, hstring, intoPy]
  | none =>
    cases hbool : (PyAny.foreign o).extractBool with
    | some b => simp [fromPy, PyAny.isNone, Opaque, hstring, hbool, intoPy]
    | none =>
      cases hi64 : (PyAny.foreign o).extractI64 with
      | some i => simp [fromPy, PyAny.isNone, Opaque, hstring, hbool, hi64, intoPy]
      | none =>
        cases hf64 : (PyAny.foreign o).extractF64 with
        | some f => simp [fromPy, PyAny.isNone, Opaque, hstring, hbool, hi64, hf64, intoPy]
        | none =>
          cases hvec : (PyAny.foreign o).extractVec <;>
            simp [fromPy, PyAny.isNone, Opaque, hstring, hbool, hi64, hf64, hvec, intoPy]

/-- A sequence that can be read as bytes comes back as bytes. -/
theorem fromPy_sequence_iff {v : PyAny F} {items : List (PyAny F)}
    (hv : v = .list items ∨ v = .tuple items) :
    (fromPy v).intoPy = v ↔ ∃ item ∈ items, item.extractU8 = Option.none := by
  have hfrom : fromPy v = match items.mapM PyAny.extractU8 with
      | some b => .bytes b
      | Option.none => .pyObject v := by
    rcases hv with rfl | rfl <;> rfl
  rw [hfrom, ← mapM_eq_none_iff]
  cases items.mapM PyAny.extractU8 with
  | some b =>
    dsimp only
    rw [intoPy]
    rcases hv with rfl | rfl <;> exact iff_of_false nofun nofun
  | none =>
    dsimp only
    rw [intoPy]
    exact iff_of_true rfl rfl

theorem fromPy_int_iff {i : Int} :
    (fromPy (.int i : PyAny F)).intoPy = .int i ↔ -2 ^ 63 ≤ i ∧ i < 2 ^ 63 := by
  by_cases h : -2 ^ 63 ≤ i ∧ i < 2 ^ 63
  · have hfrom : fromPy (.int i : PyAny F) = .int (Int64.ofInt i) := by
      unfold fromPy
      rw [PyAny.extractI64_int h]
      rfl
    rw [hfrom, intoPy, Int64.toInt_ofInt_of_le h.1 h.2]
    exact iff_of_true rfl h
  · have hfrom : fromPy (.int i : PyAny F) = .float (F.ofInt i) := by
      unfold fromPy
      rw [PyAny.extractI64_int_none h]
      rfl
    rw [hfrom, intoPy]
    exact iff_of_false nofun h

theorem intoPy_fromPy_str (s : PyStr) : (fromPy (.str s : PyAny F)).intoPy = .str s := by
  have hfrom : fromPy (.str s : PyAny F) = match s.plain? with
      | some t => .string t
      | Option.none => .pyObject (.str s) := rfl
  rw [hfrom]
  cases hs : s.plain? with
  | some t =>
    dsimp only
    rw [intoPy, PyStr.plain?_eq_some hs]
  | none =>
    dsimp only
    rw [intoPy]

theorem intoPy_fromPy_of_no_extraction {v : PyAny F} (hnone : v.isNone = false) (h : Opaque v) :
    (fromPy v).intoPy = v := by
  obtain ⟨hstring, hbool, hi64, hf64, hvec⟩ := h
  simp [fromPy, hnone, hstring, hbool, hi64, hf64, hvec, intoPy]

/-- A value survives the classification exactly if it is not taken for one of another type. -/
theorem intoPy_fromPy_iff (v : PyAny F) : (fromPy v).intoPy = v ↔ Keepable v := by
  have hopaque : ∀ w : PyAny F, w.isNone = false → Opaque w → Keepable w →
      ((fromPy w).intoPy = w ↔ Keepable w) := fun w hnone h hkeep =>
    iff_of_true (intoPy_fromPy_of_no_extraction hnone h) hkeep
  cases v with
  | none => simp [fromPy, PyAny.isNone, intoPy, Keepable]
  | bool b => simp [fromPy, PyAny.isNone, PyAny.extractString, PyAny.extractBool, intoPy, Keepable]
  | int i => exact fromPy_int_iff
  | float f =>
    have hfrom : fromPy (.float f : PyAny F) = .float f := rfl
    rw [hfrom, intoPy]
    exact iff_of_true rfl trivial
  | str s => exact iff_of_true (intoPy_fromPy_str s) trivial
  | bytes b =>
    have hfrom : fromPy (.bytes b : PyAny F) = .bytes b := rfl
    rw [hfrom, intoPy]
    exact iff_of_true rfl trivial
  | list items => exact fromPy_sequence_iff (.inl rfl)
  | tuple items => exact fromPy_sequence_iff (.inr rfl)
  | dict entries => exact hopaque _ rfl ⟨rfl, rfl, rfl, rfl, rfl⟩ trivial
  | datetime d t => exact hopaque _ rfl ⟨rfl, rfl, rfl, rfl, rfl⟩ trivial
  | date d => exact hopaque _ rfl ⟨rfl, rfl, rfl, rfl, rfl⟩ trivial
  | time t => exact hopaque _ rfl ⟨rfl, rfl, rfl, rfl, rfl⟩ trivial
  | foreign o => exact fromPy_foreign_iff o

end DIValue

/-! ## The context -/

section

variable {V : Type}

theorem Context.lookup_setValue (ctx : Context V) (key : String) (value : V) :
    (ctx.setValue key value).values.lookup key = some value := AList.lookup_insert _

theorem Context.lookup_setValue_ne (ctx : Context V) {key other : String} (h : key ≠ other)
    (value : V) : (ctx.setValue other value).values.lookup key = ctx.values.lookup key :=
  AList.lookup_insert_ne h

end

namespace Context

def set (ctx : Context (DIValue F)) (key : String) (value : PyAny F) : Context (DIValue F) :=
  ctx.setValue key (.fromPy value)

def get (ctx : Context (DIValue F)) (key : String) : PyAny F :=
  match ctx.values.lookup key with
  | some entry => entry.intoPy
  | none => .none

def remove (ctx : Context (DIValue F)) (key : String) : Context (DIValue F) :=
  { ctx with values := ctx.values.erase key }

def clearAuth (ctx : Context (DIValue F)) : Context (DIValue F) :=
  { ctx with userId := none, isAuthenticated := false, roles := [] }

theorem get_of_lookup {ctx : Context (DIValue F)} {key : String} {v : PyAny F}
    (h : ctx.values.lookup key = some (.fromPy v)) : ctx.get key = (DIValue.fromPy v).intoPy := by
  unfold get
  rw [h]

end Context

/-- The methods that change a context. -/
inductive ContextCall (F : F64)
  | set (key : String) (value : PyAny F)
  | remove (key : String)
  | setAuth (userId : String) (roles : List String)
  | clearAuth

namespace ContextCall

def perform (ctx : Context (DIValue F)) : ContextCall F → Context (DIValue F)
  | .set key value => ctx.set key value
  | .remove key => ctx.remove key
  | .setAuth userId roles => ctx.setAuth userId roles
  | .clearAuth => ctx.clearAuth

def key? : ContextCall F → Option String
  | .set key _ => some key
  | .remove key => some key
  | _ => none

/-- A call leaves the other keys alone. -/
theorem lookup_perform (ctx : Context (DIValue F)) {call : ContextCall F} {key : String}
    (h : call.key? ≠ some key) :
    (call.perform ctx).values.lookup key = ctx.values.lookup key := by
  cases call with
  | set other value => exact AList.lookup_insert_ne fun heq => h (congrArg some heq.symm)
  | remove other => exact AList.lookup_erase_ne fun heq => h (congrArg some heq.symm)
  | setAuth userId roles => rfl
  | clearAuth => rfl

end ContextCall

/-! ## The container -/

namespace DIContainer

section

variable {V : Type}

/-- The keys are distinct, so no entry overwrites another. -/
theorem lookup_singletons {entries : List (Sigma fun _ : String => V)} (ctx : Context V)
    {key : String} {value : V} (hnodup : entries.NodupKeys)
    (h : entries.dlookup key = some value ∨
      key ∉ entries.keys ∧ ctx.values.lookup key = some value) :
    (entries.foldl (fun ctx e => ctx.setValue e.1 e.2) ctx).values.lookup key = some value := by
  induction entries generalizing ctx with
  | nil =>
    rcases h with h | ⟨-, h⟩
    · cases h
    · exact h
  | cons e entries ih =>
    obtain ⟨hnew, hrest⟩ := List.nodupKeys_cons.mp hnodup
    rw [List.foldl_cons]
    apply ih _ hrest
    -- the entry of the key is written now, or is still to come, or was there before
    by_cases hkey : key = e.1
    · subst hkey
      refine .inr ⟨hnew, ?_⟩
      rcases h with h | ⟨habsent, -⟩
      · rw [List.dlookup_cons_eq] at h
        rw [Context.lookup_setValue, Option.some.inj h]
      · exact absurd List.mem_cons_self habsent
    · rcases h with h | ⟨habsent, h⟩
      · rw [List.dlookup_cons_ne _ _ hkey] at h
        exact .inl h
      · refine .inr ⟨fun hmem => habsent (List.mem_cons_of_mem _ hmem), ?_⟩
        rw [Context.lookup_setValue_ne _ hkey, h]

theorem lookup_callFactories_of_notMem {call : String → Except PyExc V} {names : List String}
    {ctx ctx' : Context V} {key : String} (h : key ∉ names)
    (hcall : callFactories call names ctx = .ok ctx') :
    ctx'.values.lookup key = ctx.values.lookup key := by
  induction names generalizing ctx with
  | nil =>
    cases hcall
    rfl
  | cons name names ih =>
    obtain ⟨hne, hrest⟩ := List.ne_and_not_mem_of_not_mem_cons h
    rw [callFactories] at hcall
    split at hcall
    · cases hcall
    · rw [ih hrest hcall, Context.lookup_setValue_ne _ hne]

/-- What a factory supplies is what its last call returned. -/
theorem lookup_callFactories_of_mem {call : String → Except PyExc V} {names : List String}
    {ctx ctx' : Context V} {key : String} {value : V} (h : key ∈ names)
    (hvalue : call key = .ok value) (hcall : callFactories call names ctx = .ok ctx') :
    ctx'.values.lookup key = some value := by
  induction names generalizing ctx with
  | nil => cases h
  | cons name names ih =>
    rw [callFactories] at hcall
    split at hcall
    · cases hcall
    · rename_i v hname
      -- a name that comes again would be called again, with the same result
      by_cases hrest : key ∈ names
      · exact ih hrest hcall
      · obtain rfl | hmem := List.mem_cons.mp h
        · rw [hname] at hvalue
          rw [lookup_callFactories_of_notMem hrest hcall, Context.lookup_setValue,
            Except.ok.inj hvalue]
        · exact absurd hmem hrest

end

def singleton (di : DIContainer (DIValue F)) (name : String) (value : PyAny F) :
    DIContainer (DIValue F) :=
  { di with singletons := di.singletons.insert name (.fromPy value) }

/-- A factory with this name is replaced. -/
def factory (di : DIContainer (DIValue F)) (name : String) : DIContainer (DIValue F) :=
  if name ∈ di.factories then di else { di with factories := di.factories ++ [name] }

/-- `factory.call0` and the value that its result becomes. -/
def callFactory (results : String → Except PyExc (PyAny F)) (name : String) :
    Except PyExc (DIValue F) := (results name).map .fromPy

theorem lookup_singleton (di : DIContainer (DIValue F)) (name : String) (value : PyAny F) :
    (di.singleton name value).singletons.lookup name = some (.fromPy value) :=
  AList.lookup_insert _

theorem mem_factory (di : DIContainer (DIValue F)) (name : String) :
    name ∈ (di.factory name).factories := by
  unfold factory
  split_ifs with h
  · exact h
  · exact List.mem_append_right _ List.mem_cons_self

section

variable {xxh3_64 : List UInt8 → UInt64} {di : DIContainer (DIValue F)}
  {results : String → Except PyExc (PyAny F)} {now later : Instant} {ctx : Context (DIValue F)}
  {key : String} {v : PyAny F}

theorem lookup_of_singleton (hvalue : di.singletons.lookup key = some (.fromPy v))
    (hfactory : key ∉ di.factories)
    (h : di.createContext xxh3_64 (callFactory results) now later = .ok ctx) :
    ctx.values.lookup key = some (.fromPy v) :=
  (lookup_callFactories_of_notMem hfactory h).trans
    (lookup_singletons _ di.singletons.nodupKeys (.inl hvalue))

theorem lookup_of_factory (hfactory : key ∈ di.factories) (hresult : results key = .ok v)
    (h : di.createContext xxh3_64 (callFactory results) now later = .ok ctx) :
    ctx.values.lookup key = some (.fromPy v) := by
  refine lookup_callFactories_of_mem hfactory ?_ h
  rw [callFactory, hresult]
  rfl

end

end DIContainer

/-- The value under a key was put there by `set`, as a singleton that no factory replaces, or by a
factory; what was called since then is about other keys. -/
inductive Supplies (xxh3_64 : List UInt8 → UInt64) (key : String) (v : PyAny F) :
    Context (DIValue F) → Prop
  | set (ctx : Context (DIValue F)) : Supplies xxh3_64 key v (ctx.set key v)
  | singleton {di : DIContainer (DIValue F)} {results : String → Except PyExc (PyAny F)}
    {now later : Instant} {ctx : Context (DIValue F)}
    (hvalue : di.singletons.lookup key = some (.fromPy v)) (h : key ∉ di.factories)
    (hctx : di.createContext xxh3_64 (DIContainer.callFactory results) now later = .ok ctx) :
    Supplies xxh3_64 key v ctx
  | factory {di : DIContainer (DIValue F)} {results : String → Except PyExc (PyAny F)}
    {now later : Instant} {ctx : Context (DIValue F)} (h : key ∈ di.factories)
    (hresult : results key = .ok v)
    (hctx : di.createContext xxh3_64 (DIContainer.callFactory results) now later = .ok ctx) :
    Supplies xxh3_64 key v ctx
  | call {ctx : Context (DIValue F)} (h : Supplies xxh3_64 key v ctx) {c : ContextCall F}
    (hkey : c.key? ≠ some key) : Supplies xxh3_64 key v (c.perform ctx)

theorem Supplies.lookup {xxh3_64 : List UInt8 → UInt64} {key : String} {v : PyAny F}
    {ctx : Context (DIValue F)} (h : Supplies xxh3_64 key v ctx) :
    ctx.values.lookup key = some (.fromPy v) := by
  induction h with
  | set ctx => exact AList.lookup_insert _
  | singleton hvalue h hctx => exact DIContainer.lookup_of_singleton hvalue h hctx
  | factory h hresult hctx => exact DIContainer.lookup_of_factory h hresult hctx
  | call _ hkey ih => rw [ContextCall.lookup_perform _ hkey, ih]

/-- A value comes back as it was exactly if no extraction takes it for a value of another type. -/
theorem get_eq_iff {xxh3_64 : List UInt8 → UInt64} {key : String} {v : PyAny F}
    {ctx : Context (DIValue F)} (h : Supplies xxh3_64 key v ctx) : ctx.get key = v ↔ Keepable v := by
  rw [Context.get_of_lookup h.lookup]
  exact DIValue.intoPy_fromPy_iff v

/-- A container with the limit `7` and no factories. -/
def limits : DIContainer (DIValue sampleF64) := DIContainer.singleton ⟨∅, []⟩ "limit" (.int 7)

theorem limit_returned : ∃ ctx, limits.createContext (fun _ => 0)
    (DIContainer.callFactory fun _ => .ok .none) Instant.zero Instant.zero = .ok ctx ∧
      ctx.get "limit" = .int 7 := by
  have hctx : limits.createContext (fun _ => 0) (DIContainer.callFactory fun _ => .ok .none)
      Instant.zero Instant.zero = .ok (limits.singletons.entries.foldl
        (fun ctx e => ctx.setValue e.1 e.2)
        (Context.new (fun _ => 0) Instant.zero Instant.zero)) := rfl
  have hsupplies := Supplies.singleton (DIContainer.lookup_singleton ⟨∅, []⟩ "limit" (.int 7))
    List.not_mem_nil hctx
  exact ⟨_, hctx, (get_eq_iff hsupplies).mpr ⟨by decide, by decide⟩⟩

/-- The list `[1, 2]` comes back as bytes, and `2 ^ 63` as a float. -/
theorem classified : ¬ ∀ (key : String) (v : PyAny sampleF64) (ctx : Context (DIValue sampleF64)),
    (ctx.set key v).get key = v := by
  intro h
  have hlist := h "items" (.list [.int 1, .int 2]) (Context.new (fun _ => 0) Instant.zero
    Instant.zero)
  obtain ⟨item, hitem, hwide⟩ := (DIValue.intoPy_fromPy_iff _).mp hlist
  rcases List.mem_pair.mp hitem with rfl | rfl <;> cases hwide

end Hypern.Core
