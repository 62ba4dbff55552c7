import Hypern.Lib.Utf8
import Hypern.Python.Str
import Mathlib.Algebra.Ring.Int.Defs
import Mathlib.Algebra.Ring.Nat

/-! `json.rs`: JSON values and Python objects, converted both ways. -/

namespace Hypern.Python

open Lib

/-- The double precision numbers, of which the conversions use nothing else. -/
structure F64 where
  Carrier : Type
  finite : Carrier → Bool
  ofInt : Int → Carrier

/-- `serde_json::Number`. -/
inductive JsonNumber (F : F64)
  | posInt (n : Nat) (h : n < 2 ^ 64)
  | negInt (i : Int) (h : -2 ^ 63 ≤ i ∧ i < 0)
  | float (f : F.Carrier) (h : F.finite f = true)

namespace JsonNumber

variable {F : F64}

def asI64 : JsonNumber F → Option Int
  | .posInt n _ => if n < 2 ^ 63 then some n else none
  | .negInt i _ => some i
  | .float _ _ => none

def asU64 : JsonNumber F → Option Nat
  | .posInt n _ => some n
  | _ => none

def asF64 : JsonNumber F → Option F.Carrier
  | .posInt n _ => some (F.ofInt n)
  | .negInt i _ => some (F.ofInt i)
  | .float f _ => some f

/-- The number of an integer that fits in an `i64`. -/
def ofI64 (i : Int) : Option (JsonNumber F) :=
  if h : 0 ≤ i ∧ i < 2 ^ 63 then some (.posInt i.toNat (by omega))
  else if h : -2 ^ 63 ≤ i ∧ i < 0 then some (.negInt i h)
  else none

def ofU64 (i : Int) : Option (JsonNumber F) :=
  if h : 0 ≤ i ∧ i < 2 ^ 64 then some (.posInt i.toNat (by omega)) else none

def ofF64 (f : F.Carrier) : Option (JsonNumber F) :=
  if h : F.finite f = true then some (.float f h) else none

end JsonNumber

/-- `serde_json::Value`, with the entries of a map in the order of its keys. -/
inductive JsonValue (F : F64)
  | null
  | bool (b : Bool)
  | number (n : JsonNumber F)
  | string (s : String)
  | array (items : List (JsonValue F))
  | object (entries : List (String × JsonValue F))

/-- Every object is a map: its keys are in order, and none comes twice. -/
inductive JsonValue.Wf {F : F64} : JsonValue F → Prop
  | null : Wf .null
  | bool (b : Bool) : Wf (.bool b)
  | number (n : JsonNumber F) : Wf (.number n)
  | string (s : String) : Wf (.string s)
  | array {items : List (JsonValue F)} (h : ∀ v ∈ items, Wf v) : Wf (.array items)
  | object {entries : List (String × JsonValue F)} (sorted : (entries.map Prod.fst).Pairwise (· < ·))
    (h : ∀ e ∈ entries, Wf e.2) : Wf (.object entries)

/-- `Map::insert` -/
def insertKey {V : Type} (key : String) (value : V) : List (String × V) → List (String × V)
  | [] => [(key, value)]
  | e :: entries =>
    if key < e.1 then (key, value) :: e :: entries
    else if key = e.1 then (key, value) :: entries
    else e :: insertKey key value entries

/-- What an object is to the conversion. `sequence` stands for tuples and the like, `iterable`
for what can be iterated only, and may raise when its items are used up. -/
inductive PyValue (F : F64)
  | none
  | bool (b : Bool)
  | int (i : Int)
  | float (f : F.Carrier)
  | str (s : PyStr)
  | dict (entries : List (PyValue F × PyValue F))
  | list (items : List (PyValue F))
  | bytes (b : List UInt8)
  | sequence (items : List (PyValue F))
  | iterable (items : List (PyValue F)) (raised : Option PyExc)
  | object (attributes : List (PyValue F × PyValue F))
  | other (id : Nat)

inductive PyType
  | bool | int | float | str | dict | list

namespace PyValue

variable {F : F64}

def isNone : PyValue F → Bool
  | .none => true
  | _ => false

/-- `bool` is a subclass of `int`. -/
def isInstanceOf : PyType → PyValue F → Bool
  | .bool, .bool _ => true
  | .int, .bool _ => true
  | .int, .int _ => true
  | .float, .float _ => true
  | .str, .str _ => true
  | .dict, .dict _ => true
  | .list, .list _ => true
  | _, _ => false

def wrongType : PyExc := typeError "object cannot be converted"

def extractBool : PyValue F → Except PyExc Bool
  | .bool b => .ok b
  | _ => .error wrongType

def extractInt : PyValue F → Option Int
  | .bool b => some (if b then 1 else 0)
  | .int i => some i
  | _ => Option.none

def extractF64 : PyValue F → Except PyExc F.Carrier
  | .float f => .ok f
  | _ => .error wrongType

def extractString : PyValue F → Except PyExc String
  | .str s =>
    match s.plain? with
    | some t => .ok t
    | Option.none => .error (unicodeEncodeError s)
  | _ => .error wrongType

def extractU8 (v : PyValue F) : Option UInt8 :=
  v.extractInt.bind fun i => if 0 ≤ i ∧ i < 256 then some (UInt8.ofNat i.toNat) else Option.none

def extractBytes : PyValue F → Option (List UInt8)
  | .bytes b => some b
  | .sequence items => items.mapM extractU8
  | _ => Option.none

/-- `dict[key] = value` for a key that is a string. -/
def setItem (key : PyStr) (value : PyValue F) :
    List (PyValue F × PyValue F) → List (PyValue F × PyValue F)
  | [] => [(.str key, value)]
  | (.str k, v) :: entries =>
    if k = key then (.str k, value) :: entries else (.str k, v) :: setItem key value entries
  | e :: entries => e :: setItem key value entries

end PyValue

/-- Each surrogate is three invalid bytes. -/
def lossy (s : PyStr) : String :=
  String.ofList (s.flatMap fun
    | .char c => [c]
    | .surrogate _ => List.replicate 3 utf8Replacement)

variable {F : F64}

theorem sizeOf_snd_lt {α β : Type} [SizeOf α] [SizeOf β] {e : α × β} {l : List (α × β)}
    (h : e ∈ l) : sizeOf e.2 < sizeOf l := by
  have hlt := List.sizeOf_lt_of_mem h
  rw [Prod.mk.sizeOf_spec e.1 e.2] at hlt
  omega

def jsonValueToPy : JsonValue F → PyValue F
  | .null => .none
  | .bool b => .bool b
  | .number n =>
    match n.asI64 with
    | some i => .int i
    | none =>
      match n.asU64 with
      | some u => .int u
      | none =>
        match n.asF64 with
        | some f => .float f
        | none => .int 0
  | .string s => .str (.ofString s)
  | .array arr => .list (arr.map jsonValueToPy)
  | .object obj => .dict (obj.foldl
    (fun dict e => PyValue.setItem (.ofString e.1) (jsonValueToPy e.2) dict) [])
decreasing_by
  · exact Nat.lt_of_lt_of_le (List.sizeOf_lt_of_mem (by assumption)) (by simp)
  · exact Nat.lt_of_lt_of_le (sizeOf_snd_lt (by assumption)) (by simp)

section

-- what `str` answers for an object
variable (str : PyValue F → Except PyExc PyStr)

def keyText (key : PyValue F) : Except PyExc String :=
  if key.isInstanceOf .str then key.extractString else (str key).map lossy

/-- The tests are made in this order. -/
def pyToJsonValue (obj : PyValue F) : Except PyExc (JsonValue F) :=
  if obj.isNone then .ok .null
  else if obj.isInstanceOf .bool then obj.extractBool.map .bool
  else if obj.isInstanceOf .int then
    match obj.extractInt.bind JsonNumber.ofI64 with
    | some n => .ok (.number n)
    | none =>
      match obj.extractInt.bind JsonNumber.ofU64 with
      | some n => .ok (.number n)
      | none => (str obj).map fun s => .string (lossy s)
  else if obj.isInstanceOf .float then
    obj.extractF64.map fun f =>
      match JsonNumber.ofF64 f with
      | some n => .number n
      | none => .null
  else if obj.isInstanceOf .str then obj.extractString.map .string
  else if obj.isInstanceOf .dict then
    match obj with
    | .dict entries =>
      (entries.foldlM (fun map (e : PyValue F × PyValue F) => do
        let key ← keyText str e.1
        let value ← pyToJsonValue e.2
        return insertKey key value map) []).map .object
    | _ => .error PyValue.wrongType
  else if obj.isInstanceOf .list then
    match obj with
    | .list items => (items.mapM fun item => pyToJsonValue item).map .array
    | _ => .error PyValue.wrongType
  else
    match obj.extractBytes with
    | some bytes => .ok (.string (fromUtf8Lossy bytes))
    | none =>
      match obj with
      | .sequence items => (items.mapM fun item => pyToJsonValue item).map .array
      | .iterable items raised => do
        let arr ← items.mapM fun item => pyToJsonValue item
        match raised with
        | some e => .error e
        | none => return .array arr
      | .object attributes =>
        (attributes.foldlM (fun map (e : PyValue F × PyValue F) => do
          let key := lossy (← str e.1)
          -- private attributes are left out
          if key.toList.head? = some '_' then return map
          let value ← pyToJsonValue e.2
          return insertKey key value map) []).map .object
      | obj => (str obj).map fun s => .string (lossy s)
decreasing_by
  · exact Nat.lt_of_lt_of_le (sizeOf_snd_lt (by assumption)) (by simp)
  · exact Nat.lt_of_lt_of_le (List.sizeOf_lt_of_mem (by assumption)) (by simp)
  · exact Nat.lt_of_lt_of_le (List.sizeOf_lt_of_mem (by assumption)) (by simp)
  · exact Nat.lt_of_lt_of_le (List.sizeOf_lt_of_mem (by assumption)) (by simp +arith)
  · exact Nat.lt_of_lt_of_le (sizeOf_snd_lt (by assumption)) (by simp)

end

/-! ## Numbers -/

namespace JsonNumber

theorem ofI64_of_asI64 {n : JsonNumber F} {i : Int} (h : n.asI64 = some i) : ofI64 i = some n := by
  cases n with
  | posInt n hn =>
    obtain ⟨hlt, hi⟩ := Option.ite_none_right_eq_some.mp h
    cases hi
    unfold ofI64
    rw [dif_pos (by omega)]
    rfl
  | negInt i hi =>
    cases h
    unfold ofI64
    rw [dif_neg (by omega), dif_pos hi]
  | float f hf => cases h

/-- The integers that do not fit in an `i64` are the large ones of the `u64`. -/
theorem ofU64_of_asU64 {n : JsonNumber F} {u : Nat} (hi : n.asI64 = none) (h : n.asU64 = some u) :
    (ofI64 u : Option (JsonNumber F)) = none ∧ ofU64 u = some n := by
  cases n with
  | posInt n hn =>
    have hlarge : ¬ n < 2 ^ 63 := fun hlt => by
      rw [asI64, if_pos hlt] at hi
      cases hi
    cases h
    constructor
    · unfold ofI64
      rw [dif_neg (by omega), dif_neg (by omega)]
    · unfold ofU64
      rw [dif_pos (by omega)]
      rfl
  | negInt i hi => cases h
  | float f hf => cases h

end JsonNumber

section

variable (str : PyValue F → Except PyExc PyStr)

theorem pyToJsonValue_int (i : Int) : pyToJsonValue str (.int i : PyValue F) =
    match JsonNumber.ofI64 i with
    | some n => .ok (.number n)
    | none =>
      match JsonNumber.ofU64 i with
      | some n => .ok (.number n)
      | none => (str (.int i)).map fun s => .string (lossy s) := by
  rw [pyToJsonValue.eq_def]
  rfl

theorem pyToJsonValue_float (f : F.Carrier) : pyToJsonValue str (.float f : PyValue F) =
    match JsonNumber.ofF64 f with
    | some n => .ok (.number n)
    | none => .ok .null := by
  rw [pyToJsonValue.eq_def]
  change Except.ok (match JsonNumber.ofF64 f with
    | some n => JsonValue.number n
    | none => JsonValue.null) = _
  cases JsonNumber.ofF64 f <;> rfl

theorem pyToJsonValue_str (s : String) :
    pyToJsonValue str (.str (.ofString s) : PyValue F) = .ok (.string s) := by
  rw [pyToJsonValue.eq_def]
  change (PyValue.extractString (.str (.ofString s) : PyValue F)).map _ = _
  rw [PyValue.extractString, PyStr.plain?_ofString]
  rfl

theorem pyToJsonValue_list (items : List (PyValue F)) : pyToJsonValue str (.list items) =
    (items.mapM fun item => pyToJsonValue str item).map .array := by
  rw [pyToJsonValue.eq_def]
  rfl

theorem pyToJsonValue_dict (entries : List (PyValue F × PyValue F)) :
    pyToJsonValue str (.dict entries) =
      (entries.foldlM (fun map (e : PyValue F × PyValue F) => do
        let key ← keyText str e.1
        let value ← pyToJsonValue str e.2
        return insertKey key value map) []).map .object := by
  rw [pyToJsonValue.eq_def]
  rfl

theorem pyToJsonValue_number (n : JsonNumber F) :
    pyToJsonValue str (jsonValueToPy (.number n)) = .ok (.number n) := by
  rw [jsonValueToPy]
  cases hi : n.asI64 with
  | some i =>
    dsimp only
    rw [pyToJsonValue_int, JsonNumber.ofI64_of_asI64 hi]
  | none =>
    cases hu : n.asU64 with
    | some u =>
      obtain ⟨hnone, hsome⟩ := JsonNumber.ofU64_of_asU64 hi hu
      dsimp only
      rw [pyToJsonValue_int, hnone, hsome]
    | none =>
      cases n with
      | posInt n hn => cases hu
      | negInt i h => cases hi
      | float f hf =>
        have hfinite : JsonNumber.ofF64 f = some (.float f hf) := dif_pos hf
        dsimp only [JsonNumber.asF64]
        rw [pyToJsonValue_float, hfinite]

/-! ## Objects -/

theorem insertKey_of_lt {V : Type} {key : String} {map : List (String × V)}
    (h : ∀ e ∈ map, e.1 < key) (value : V) : insertKey key value map = map ++ [(key, value)] := by
  induction map with
  | nil => rfl
  | cons e map ih =>
    obtain ⟨hlt, hrest⟩ := List.forall_mem_cons.mp h
    have hne : key ≠ e.1 := fun heq => String.lt_irrefl _ (heq ▸ hlt)
    rw [insertKey, if_neg (String.lt_asymm hlt), if_neg hne, ih hrest]
    rfl

theorem setItem_of_notMem {key : PyStr} {entries : List (PyValue F × PyValue F)}
    (h : ∀ e ∈ entries, e.1 ≠ .str key) (value : PyValue F) :
    PyValue.setItem key value entries = entries ++ [(.str key, value)] := by
  fun_induction PyValue.setItem key value entries with
  | case1 => rfl
  | case2 v entries => exact absurd rfl (h _ List.mem_cons_self)
  | case3 k v entries hne ih => rw [ih (List.forall_mem_cons.mp h).2, List.cons_append]
  | case4 e entries _ ih => rw [ih (List.forall_mem_cons.mp h).2, List.cons_append]

theorem PyStr.ofString_injective : Function.Injective PyStr.ofString := by
  intro s t h
  have hplain : (PyStr.ofString s).plain? = (PyStr.ofString t).plain? := congrArg PyStr.plain? h
  rw [PyStr.plain?_ofString, PyStr.plain?_ofString] at hplain
  exact Option.some.inj hplain

/-- The entries of a map get places of their own in the dictionary. -/
theorem foldl_setItem (convert : JsonValue F → PyValue F) (entries : List (String × JsonValue F))
    (dict : List (PyValue F × PyValue F)) (hsorted : (entries.map Prod.fst).Pairwise (· < ·))
    (hnew : ∀ e ∈ entries, ∀ d ∈ dict, d.1 ≠ .str (.ofString e.1)) :
    entries.foldl (fun dict e => PyValue.setItem (.ofString e.1) (convert e.2) dict) dict =
      dict ++ entries.map fun e => (.str (.ofString e.1), convert e.2) := by
  induction entries generalizing dict with
  | nil => exact (List.append_nil dict).symm
  | cons e entries ih =>
    obtain ⟨hfirst, hrest⟩ := List.forall_mem_cons.mp hnew
    rw [List.map_cons, List.pairwise_cons] at hsorted
    rw [List.foldl_cons, setItem_of_notMem hfirst, ih _ hsorted.2, List.append_assoc, List.map_cons,
      List.singleton_append]
    intro other hother d hd
    rcases List.mem_append.mp hd with hd | hd
    · exact hrest other hother d hd
    · rw [List.mem_singleton.mp hd]
      intro heq
      have hlt := hsorted.1 other.1 (List.mem_map_of_mem hother)
      rw [PyStr.ofString_injective (PyValue.str.inj heq)] at hlt
      exact String.lt_irrefl _ hlt

/-- The keys come back in their order, so each goes to the end of the new map. -/
theorem foldlM_insertKey (entries map : List (String × JsonValue F))
    (hsorted : ((map ++ entries).map Prod.fst).Pairwise (· < ·))
    (hvalues : ∀ e ∈ entries, pyToJsonValue str (jsonValueToPy e.2) = .ok e.2) :
    (entries.map fun e => ((.str (.ofString e.1), jsonValueToPy e.2) : PyValue F × PyValue F)).foldlM
      (fun map (e : PyValue F × PyValue F) => do
        let key ← keyText str e.1
        let value ← pyToJsonValue str e.2
        return insertKey key value map) map = .ok (map ++ entries) := by
  induction entries generalizing map with
  | nil => exact congrArg Except.ok (List.append_nil map).symm
  | cons e entries ih =>
    obtain ⟨hvalue, hrest⟩ := List.forall_mem_cons.mp hvalues
    have hkey : keyText str (.str (.ofString e.1) : PyValue F) = .ok e.1 := by
      change PyValue.extractString (.str (.ofString e.1) : PyValue F) = _
      rw [PyValue.extractString, PyStr.plain?_ofString]
    have hlast : ∀ d ∈ map, d.1 < e.1 := by
      intro d hd
      rw [List.map_append, List.pairwise_append] at hsorted
      exact hsorted.2.2 d.1 (List.mem_map_of_mem hd) e.1 List.mem_cons_self
    rw [List.append_cons] at hsorted
    rw [List.map_cons, List.foldlM_cons]
    dsimp only
    rw [hkey, hvalue]
    change List.foldlM _ (insertKey e.1 e.2 map) _ = _
    rw [insertKey_of_lt hlast, ih _ hsorted hrest, List.append_assoc]
    rfl

theorem mapM_jsonValueToPy (items : List (JsonValue F))
    (h : ∀ v ∈ items, pyToJsonValue str (jsonValueToPy v) = .ok v) :
    ((items.map jsonValueToPy).mapM fun item => pyToJsonValue str item) = .ok items := by
  induction items with
  | nil => rfl
  | cons v items ih =>
    obtain ⟨hv, hrest⟩ := List.forall_mem_cons.mp h
    rw [List.map_cons, List.mapM_cons, hv, ih hrest]
    rfl

theorem pyToJsonValue_jsonValueToPy {v : JsonValue F} (h : v.Wf) :
    pyToJsonValue str (jsonValueToPy v) = .ok v := by
  induction h with
  | null =>
    rw [jsonValueToPy, pyToJsonValue.eq_def]
    rfl
  | bool b =>
    rw [jsonValueToPy, pyToJsonValue.eq_def]
    rfl
  | number n => exact pyToJsonValue_number str n
  | string s =>
    rw [jsonValueToPy]
    exact pyToJsonValue_str str s
  | @array items _ ih =>
    rw [jsonValueToPy, pyToJsonValue_list, mapM_jsonValueToPy str items ih]
    rfl
  | @object entries sorted _ ih =>
    rw [jsonValueToPy, pyToJsonValue_dict,
      foldl_setItem _ entries [] sorted (fun _ _ => List.forall_mem_nil _), List.nil_append, foldlM_insertKey str entries [] sorted ih]
    rfl

end

/-- Numbers with a value, and one that is not finite. -/
def sampleF64 : F64 := ⟨Option Int, Option.isSome, some⟩

def sampleValue : JsonValue sampleF64 :=
  .object [("items", .array [.number (.posInt (2 ^ 63) (by decide)), .bool true, .null]),
    ("point", .object [("x", .number (.negInt (-1) (by decide))),
      ("y", .number (.float (some 1) rfl))])]

theorem sampleValue_survives :
    pyToJsonValue (fun _ => .ok []) (jsonValueToPy sampleValue) = .ok sampleValue := by
  refine pyToJsonValue_jsonValueToPy _ (.object (by decide) ?_)
  simp only [List.forall_mem_cons, List.not_mem_nil, false_implies, implies_true, and_true]
  refine ⟨.array ?_, .object (by decide) ?_⟩
  · simp only [List.forall_mem_cons, List.not_mem_nil, false_implies, implies_true, and_true]
    exact ⟨.number _, .bool _, .null⟩
  · simp only [List.forall_mem_cons, List.not_mem_nil, false_implies, implies_true, and_true]
    exact ⟨.number _, .number _⟩

end Hypern.Python
