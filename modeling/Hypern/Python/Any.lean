import Hypern.Python.Convert

/-! Python objects as PyO3's `extract` sees them. -/

namespace Hypern.Python

structure PyDate where
  year : Nat
  month : Nat
  day : Nat
  deriving DecidableEq

structure PyTime where
  hour : Nat
  minute : Nat
  second : Nat
  microsecond : Nat
  deriving DecidableEq

/-- What an object of any other class answers to the extractions: the text of an instance of a
subclass of `str`, a truth value as `numpy.bool_` has one, `__index__`, `__float__`, and the items
of a sequence that all fit in bytes. -/
structure Foreign (F : F64) where
  id : Nat
  text : Option String
  truth : Option Bool
  index : Option Int
  float : Option F.Carrier
  octets : Option (List UInt8)

inductive PyAny (F : F64)
  | none
  | bool (b : Bool)
  | int (i : Int)
  | float (f : F.Carrier)
  | str (s : PyStr)
  | bytes (b : List UInt8)
  | list (items : List (PyAny F))
  | tuple (items : List (PyAny F))
  | dict (entries : List (PyAny F × PyAny F))
  | datetime (d : PyDate) (t : PyTime)
  | date (d : PyDate)
  | time (t : PyTime)
  | foreign (o : Foreign F)

namespace PyAny

variable {F : F64}

def isNone : PyAny F → Bool
  | .none => true
  | _ => false

def extractString : PyAny F → Option String
  | .str s => s.plain?
  | .foreign o => o.text
  | _ => Option.none

def extractBool : PyAny F → Option Bool
  | .bool b => some b
  | .foreign o => o.truth
  | _ => Option.none

/-- `__index__`, which only integers have. -/
def index : PyAny F → Option Int
  | .bool b => some (if b then 1 else 0)
  | .int i => some i
  | .foreign o => o.index
  | _ => Option.none

def extractI64 (v : PyAny F) : Option Int64 :=
  v.index.bind fun i => if -2 ^ 63 ≤ i ∧ i < 2 ^ 63 then some (Int64.ofInt i) else Option.none

def extractU8 (v : PyAny F) : Option UInt8 :=
  v.index.bind fun i => if 0 ≤ i ∧ i < 256 then some (UInt8.ofNat i.toNat) else Option.none

/-- `__float__`, or the number nearest to an integer. -/
def extractF64 : PyAny F → Option F.Carrier
  | .bool b => some (F.ofInt (if b then 1 else 0))
  | .int i => some (F.ofInt i)
  | .float f => some f
  | .foreign o => o.float
  | _ => Option.none

/-- `extract::<Vec<u8>>()`, for which bytes are a sequence like any other. -/
def extractVec : PyAny F → Option (List UInt8)
  | .bytes b => some b
  | .list items => items.mapM extractU8
  | .tuple items => items.mapM extractU8
  | .foreign o => o.octets
  | _ => Option.none

theorem extractI64_int {i : Int} (h : -2 ^ 63 ≤ i ∧ i < 2 ^ 63) :
    (.int i : PyAny F).extractI64 = some (Int64.ofInt i) := if_pos h

theorem extractI64_int_none {i : Int} (h : ¬ (-2 ^ 63 ≤ i ∧ i < 2 ^ 63)) :
    (.int i : PyAny F).extractI64 = Option.none := if_neg h

end PyAny

end Hypern.Python
