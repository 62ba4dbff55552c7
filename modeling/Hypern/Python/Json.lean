import Mathlib.Data.Rat.Defs
import Hypern.Python.Object

/-! Python values that come out of `json.loads`, as dictionaries and as members of a set. -/

namespace Hypern.Python

inductive PyFloat
  | finite (q : ℚ)
  | inf (negative : Bool)
  | nan
  deriving DecidableEq

inductive Json
  | null
  | bool (b : Bool)
  | int (n : Int)
  | float (f : PyFloat)
  | str (s : String)
  | list (l : List Json)
  | dict (d : List (String × Json))

abbrev Dict := List (String × Json)

namespace Dict

def get? (d : Dict) (key : String) : Option Json := d.lookup key

/-- `d[key] = value` keeps the place of a key that is there. -/
def set (d : Dict) (key : String) (value : Json) : Dict :=
  if (d.lookup key).isSome then d.map fun e => if e.1 = key then (key, value) else e
  else d ++ [(key, value)]

def setdefault (d : Dict) (key : String) (value : Json) : Dict :=
  if (d.lookup key).isSome then d else d ++ [(key, value)]

def pop (d : Dict) (key : String) : Dict := d.filter (·.1 ≠ key)

theorem lookup_cons_eq (e : String × Json) (d : Dict) (key : String) :
    List.lookup key (e :: d) = if key = e.1 then some e.2 else d.lookup key := by
  rw [List.lookup_cons]
  split_ifs with h
  · rw [h, beq_self_eq_true]
  · rw [beq_false_of_ne h]

theorem lookup_replace (d : Dict) (key key' : String) (v : Json) :
    (d.map fun e => if e.1 = key then (key, v) else e).lookup key' =
      if key' = key then (d.lookup key).map fun _ => v else d.lookup key' := by
  induction d with
  | nil => split_ifs <;> rfl
  | cons e d ih =>
    rw [List.map_cons, lookup_cons_eq, lookup_cons_eq, lookup_cons_eq, ih]
    by_cases he : e.1 = key
    · rw [if_pos he, if_pos he.symm, he]
      split_ifs <;> rfl
    · rw [if_neg he, if_neg (Ne.symm he)]
      by_cases hkey : key' = key
      · rw [if_pos hkey, if_pos hkey, if_neg fun h => he (h.symm.trans hkey)]
      · rw [if_neg hkey, if_neg hkey]

theorem lookup_append_single (d : Dict) (key key' : String) (v : Json) :
    (d ++ [(key, v)]).lookup key' =
      if key' = key then (d.lookup key).or (some v) else d.lookup key' := by
  rw [List.lookup_append, lookup_cons_eq]
  split_ifs with h
  · rw [h]
  · exact Option.or_none

theorem get?_set (d : Dict) (key key' : String) (v : Json) :
    (d.set key v).get? key' = if key' = key then some v else d.get? key' := by
  unfold Dict.set Dict.get?
  split_ifs with hin hkey hkey
  · obtain ⟨w, hw⟩ := Option.isSome_iff_exists.mp hin
    rw [lookup_replace, if_pos hkey, hw]
    rfl
  · rw [lookup_replace, if_neg hkey]
  · rw [lookup_append_single, if_pos hkey, Option.not_isSome_iff_eq_none.mp hin]
    rfl
  · rw [lookup_append_single, if_neg hkey]

theorem get?_setdefault (d : Dict) (key key' : String) (v : Json) :
    (d.setdefault key v).get? key' =
      if key' = key then (d.get? key).or (some v) else d.get? key' := by
  unfold Dict.setdefault Dict.get?
  split_ifs with hin hkey hkey
  · obtain ⟨w, hw⟩ := Option.isSome_iff_exists.mp hin
    rw [hkey, hw]
    rfl
  · rfl
  · rw [lookup_append_single, if_pos hkey]
  · rw [lookup_append_single, if_neg hkey]

end Dict

/-- What decides whether two hashable values are one member of a set. -/
inductive HashKey
  | none
  | num (q : ℚ)
  | inf (negative : Bool)
  | nan
  | str (s : String)
  deriving DecidableEq

namespace Json

def typeName : Json → String
  | .null => "NoneType"
  | .bool _ => "bool"
  | .int _ => "int"
  | .float _ => "float"
  | .str _ => "str"
  | .list _ => "list"
  | .dict _ => "dict"

/-- Numbers are equal by value, and `loads` gives one and the same object for every `NaN`. -/
def hashKey : Json → Except PyExc (Option HashKey)
  | .null => .ok (some .none)
  | .bool b => .ok (some (.num (if b then 1 else 0)))
  | .int n => .ok (some (.num n))
  | .float (.finite q) => .ok (some (.num q))
  | .float (.inf negative) => .ok (some (.inf negative))
  | .float .nan => .ok (some .nan)
  | .str s => .ok (some (.str s))
  | .list _ => .error (typeError "unhashable type: 'list'")
  | .dict _ => .error (typeError "unhashable type: 'dict'")

def truthy : Json → Bool
  | .null => false
  | .bool b => b
  | .int n => decide (n ≠ 0)
  | .float f => decide (f ≠ .finite 0)
  | .str s => decide (s ≠ "")
  | .list l => !l.isEmpty
  | .dict d => !d.isEmpty

def hashKeys : List Json → Except PyExc (List HashKey)
  | [] => .ok []
  | v :: vs =>
    match v.hashKey, hashKeys vs with
    | .error e, _ => .error e
    | .ok _, .error e => .error e
    | .ok k, .ok ks => .ok (k.toList ++ ks)

/-- The members of `set(v)`. -/
def toSet : Json → Except PyExc (List HashKey)
  | .list l => hashKeys l
  | .str s => .ok (s.toList.map fun c => .str c.toString)
  | .dict d => .ok (d.map fun e => .str e.1)
  | v => .error (typeError ("'" ++ v.typeName ++ "' object is not iterable"))

def isStr (s : String) : Json → Bool
  | .str t => t == s
  | _ => false

/-- `n > v` -/
def ltInt (n : Int) : Json → Except PyExc Bool
  | .bool b => .ok (decide ((if b then 1 else 0) < n))
  | .int m => .ok (decide (m < n))
  | .float (.finite q) => .ok (decide (q < n))
  | .float (.inf negative) => .ok negative
  | .float .nan => .ok false
  | v => .error (typeError ("'>' not supported between instances of 'int' and '" ++ v.typeName ++ "'"))

end Json

end Hypern.Python
