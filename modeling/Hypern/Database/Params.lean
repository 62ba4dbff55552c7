import Hypern.Lib.BigEndian
import Hypern.Lib.Fallible
import Hypern.Python.Any

/-! `row_converter.rs`: the parameters of a query, from Python objects to the bytes that are sent
for a column of a given type. -/

namespace Hypern.Database

open Lib Python

structure NaiveDate where
  year : Nat
  month : Nat
  day : Nat

structure NaiveTime where
  hour : Nat
  minute : Nat
  second : Nat
  nano : Nat

structure NaiveDateTime where
  date : NaiveDate
  time : NaiveTime

/-- The column types among which `to_sql` distinguishes. -/
inductive PgType
  | int2 | int4 | int8 | float4 | float8 | numeric
  | other (name : String)
  deriving DecidableEq

/-- Single precision and decimal numbers, and what the crates write for the values that are no
integers. A double is eight bytes. -/
structure Codec (F : F64) where
  F32 : Type
  Decimal : Type
  asF32 : F.Carrier → F32
  asF64 : F32 → F.Carrier
  decimalOfF32 : F32 → Option Decimal
  decimalOfF64 : F.Carrier → Option Decimal
  decimalDefault : Decimal
  putF32 : F32 → List UInt8
  putF64 : F.Carrier → List UInt8
  length_putF64 : ∀ f, (putF64 f).length = 8
  putDecimal : Decimal → List UInt8
  putDate : NaiveDate → PgType → Except String (List UInt8)
  putTime : NaiveTime → PgType → Except String (List UInt8)
  putTimestamp : NaiveDateTime → PgType → Except String (List UInt8)
  putJson : JsonValue F → PgType → Except String (List UInt8)

variable {F : F64}

inductive DynParam (c : Codec F)
  | null
  | bool (v : Bool)
  | i16 (v : Int16)
  | i32 (v : Int32)
  | i64 (v : Int64)
  | f32 (v : c.F32)
  | f64 (v : F.Carrier)
  | decimal (v : c.Decimal)
  | text (v : String)
  | bytes (v : List UInt8)
  | date (v : NaiveDate)
  | time (v : NaiveTime)
  | timestamp (v : NaiveDateTime)
  | json (v : JsonValue F)

namespace DynParam

variable {c : Codec F}

/-- The bytes of a value, or none for `NULL`. The casts between integers keep the lowest bits. -/
def toSql (ty : PgType) : DynParam c → Except String (Option (List UInt8))
  | .null => .ok none
  | .bool v => .ok (some [if v then 1 else 0])
  | .i16 v => .ok <| some <| match ty with
    | .int2 => putInt 2 v.toInt
    | .int4 => putInt 4 v.toInt32.toInt
    | .int8 => putInt 8 v.toInt64.toInt
    | _ => putInt 2 v.toInt
  | .i32 v => .ok <| some <| match ty with
    | .int2 => putInt 2 v.toInt16.toInt
    | .int4 => putInt 4 v.toInt
    | .int8 => putInt 8 v.toInt64.toInt
    | _ => putInt 4 v.toInt
  | .i64 v => .ok <| some <| match ty with
    | .int2 => putInt 2 v.toInt16.toInt
    | .int4 => putInt 4 v.toInt32.toInt
    | .int8 => putInt 8 v.toInt
    | _ => putInt 8 v.toInt
  | .f32 v => .ok <| some <| match ty with
    | .float4 => c.putF32 v
    | .float8 => c.putF64 (c.asF64 v)
    | .numeric => c.putDecimal ((c.decimalOfF32 v).getD c.decimalDefault)
    | _ => c.putF32 v
  | .f64 v => .ok <| some <| match ty with
    | .float4 => c.putF32 (c.asF32 v)
    | .float8 => c.putF64 v
    | .numeric => c.putDecimal ((c.decimalOfF64 v).getD c.decimalDefault)
    | _ => c.putF64 v
  | .decimal v => .ok (some (c.putDecimal v))
  | .text v => .ok (some (utf8 v))
  | .bytes v => .ok (some v)
  | .date v => (c.putDate v ty).map some
  | .time v => (c.putTime v ty).map some
  | .timestamp v => (c.putTimestamp v ty).map some
  | .json v => (c.putJson v ty).map some

end DynParam

/-- What Python answers to `str` and to `json.dumps`, and `serde_json::from_str`. -/
structure Interpreter (F : F64) where
  str : PyAny F → Except PyExc PyStr
  dumps : PyAny F → Except PyExc String
  fromStr : String → Option (JsonValue F)

def naiveDate (d : PyDate) : NaiveDate := ⟨d.year, d.month, d.day⟩

def naiveTime (t : PyTime) : NaiveTime := ⟨t.hour, t.minute, t.second, t.microsecond * 1000⟩

section

variable (c : Codec F) (py : Interpreter F)

/-- The extractions are tried in this order. -/
def convertParam (param : PyAny F) : Except PyExc (DynParam c) :=
  if param.isNone then .ok .null
  else match param.extractBool with
  | some b => .ok (.bool b)
  | none =>
    match param.extractI64 with
    | some i => .ok (.i64 i)
    | none =>
      match param.extractF64 with
      | some f => .ok (.f64 f)
      | none =>
        match param.extractString with
        | some s => .ok (.text s)
        | none =>
          match param with
          | .datetime d t => .ok (.timestamp ⟨naiveDate d, naiveTime t⟩)
          | .date d => .ok (.date (naiveDate d))
          | .time t => .ok (.time (naiveTime t))
          | .dict _ => (py.dumps param).map fun s => .json ((py.fromStr s).getD .null)
          | .list _ => (py.dumps param).map fun s => .json ((py.fromStr s).getD .null)
          | _ =>
            match param.extractVec with
            | some bytes => .ok (.bytes bytes)
            | none => (py.str param).map fun s => .text (lossy s)

def convertParamsFromPy (params : List (PyAny F)) : Except PyExc (List (DynParam c)) :=
  params.mapM (convertParam c py)

end

/-! ## Integers -/

inductive IntType
  | int2 | int4 | int8

namespace IntType

def pgType : IntType → PgType
  | .int2 => .int2
  | .int4 => .int4
  | .int8 => .int8

/-- The bytes of a value of the type. -/
def width : IntType → Nat
  | .int2 => 2
  | .int4 => 4
  | .int8 => 8

/-- One more than the largest value of the type. -/
def bound : IntType → Int
  | .int2 => 2 ^ 15
  | .int4 => 2 ^ 31
  | .int8 => 2 ^ 63

/-- The integer that the server reads. -/
def decode (ty : IntType) (bytes : List UInt8) : Option Int :=
  if bytes.length = ty.width then some (getInt bytes) else none

end IntType

/-- What is sent is read as the integer `n`, unless nothing is sent. -/
def Exact (ty : IntType) (n : Int) : Except String (Option (List UInt8)) → Prop
  | .error _ => True
  | .ok none => False
  | .ok (some bytes) => ty.decode bytes = some n

variable {c : Codec F} {py : Interpreter F}

theorem convertParam_i64 {n : Int} (h : -2 ^ 63 ≤ n ∧ n < 2 ^ 63) :
    convertParam c py (.int n) = .ok (.i64 (Int64.ofInt n)) := by
  unfold convertParam
  rw [PyAny.extractI64_int h]
  rfl

/-- An integer out of range is taken for a float. -/
theorem convertParam_large {n : Int} (h : ¬ (-2 ^ 63 ≤ n ∧ n < 2 ^ 63)) :
    convertParam c py (.int n) = .ok (.f64 (F.ofInt n)) := by
  unfold convertParam
  rw [PyAny.extractI64_int_none h]
  rfl

namespace IntType

theorem decode_putInt (ty : IntType) (i : Int) :
    ty.decode (putInt ty.width i) = some (i.bmod (256 ^ ty.width)) := by
  unfold decode
  rw [length_putInt, if_pos rfl, getInt_putInt]

theorem bmod_eq_self_iff (ty : IntType) (n : Int) :
    n.bmod (256 ^ ty.width) = n ↔ -ty.bound ≤ n ∧ n < ty.bound := by
  rw [Int.bmod_eq_iff (by positivity), sub_self, and_iff_left (dvd_zero _)]
  cases ty <;> simp only [width, bound] <;> omega

end IntType

/-- A cast to the width of the type, and then its bytes. -/
theorem toSql_i64 (ty : IntType) (v : Int64) : ∃ i, (.i64 v : DynParam c).toSql ty.pgType =
    .ok (some (putInt ty.width i)) ∧ i.bmod (256 ^ ty.width) = v.toInt.bmod (256 ^ ty.width) := by
  cases ty with
  | int2 =>
    refine ⟨v.toInt16.toInt, rfl, ?_⟩
    rw [Int64.toInt_toInt16]
    exact Int.bmod_bmod
  | int4 =>
    refine ⟨v.toInt32.toInt, rfl, ?_⟩
    rw [Int64.toInt_toInt32]
    exact Int.bmod_bmod
  | int8 => exact ⟨v.toInt, rfl, rfl⟩

theorem exact_i64_iff (ty : IntType) {n : Int} (h : -2 ^ 63 ≤ n ∧ n < 2 ^ 63) :
    Exact ty n ((.i64 (Int64.ofInt n) : DynParam c).toSql ty.pgType) ↔
      -ty.bound ≤ n ∧ n < ty.bound := by
  obtain ⟨i, hsql, hi⟩ := toSql_i64 (c := c) ty (Int64.ofInt n)
  rw [Int64.toInt_ofInt_of_le h.1 h.2] at hi
  rw [hsql, Exact, IntType.decode_putInt, hi, Option.some.injEq, IntType.bmod_eq_self_iff]

/-- The eight bytes of a float are no integer that is out of the range of eight bytes. -/
theorem not_exact_f64 (ty : IntType) {n : Int} (h : ¬ (-2 ^ 63 ≤ n ∧ n < 2 ^ 63)) (f : F.Carrier) :
    ¬ Exact ty n ((.f64 f : DynParam c).toSql ty.pgType) := by
  have hsql : (.f64 f : DynParam c).toSql ty.pgType = .ok (some (c.putF64 f)) := by
    cases ty <;> rfl
  have hbounds := getInt_bounds (c.putF64 f)
  rw [c.length_putF64] at hbounds
  rw [hsql, Exact, IntType.decode]
  split_ifs
  · rw [Option.some.injEq]
    omega
  · exact nofun

/-- An integer is sent as it is exactly if it is one of the column's type. -/
theorem int_exact_iff {params : List (PyAny F)} {dyns : List (DynParam c)} {i : Nat} {n : Int}
    (hconvert : convertParamsFromPy c py params = .ok dyns) (hi : params[i]? = some (.int n))
    (ty : IntType) : ∃ d, dyns[i]? = some d ∧
      (Exact ty n (d.toSql ty.pgType) ↔ -ty.bound ≤ n ∧ n < ty.bound) := by
  have hall := forall₂_of_mapM hconvert
  obtain ⟨hlt, hparam⟩ := List.getElem?_eq_some_iff.mp hi
  have hlt' : i < dyns.length := hall.length_eq ▸ hlt
  have hd : convertParam c py params[i] = .ok dyns[i] := hall.get hlt hlt'
  rw [hparam] at hd
  refine ⟨dyns[i], List.getElem?_eq_getElem hlt', ?_⟩
  by_cases hrange : -2 ^ 63 ≤ n ∧ n < 2 ^ 63
  · rw [convertParam_i64 hrange] at hd
    rw [← Except.ok.inj hd]
    exact exact_i64_iff ty hrange
  · -- `extract::<i64>` fails and `extract::<f64>` takes the value
    rw [convertParam_large hrange] at hd
    rw [← Except.ok.inj hd]
    refine iff_of_false (not_exact_f64 ty hrange _) fun hfits => hrange ?_
    cases ty <;> simp only [IntType.bound] at hfits <;> omega

/-- Doubles and all else as empty words of the right length. -/
def sampleCodec : Codec sampleF64 where
  F32 := Unit
  Decimal := Unit
  asF32 _ := ()
  asF64 _ := none
  decimalOfF32 _ := none
  decimalOfF64 _ := none
  decimalDefault := ()
  putF32 _ := List.replicate 4 0
  putF64 _ := List.replicate 8 0
  length_putF64 _ := rfl
  putDecimal _ := []
  putDate _ _ := .error "date"
  putTime _ _ := .error "time"
  putTimestamp _ _ := .error "timestamp"
  putJson _ _ := .error "json"

def sampleInterpreter : Interpreter sampleF64 where
  str _ := .ok []
  dumps _ := .ok "null"
  fromStr _ := none

theorem seven_exact : ∃ d, [(DynParam.i64 7 : DynParam sampleCodec)][0]? = some d ∧
    Exact .int2 7 (d.toSql .int2) := by
  have hconvert : convertParamsFromPy sampleCodec sampleInterpreter [.int 7] = .ok [.i64 7] := rfl
  have hparam : ([.int 7] : List (PyAny sampleF64))[0]? = some (.int 7) := rfl
  obtain ⟨d, hd, hiff⟩ := int_exact_iff hconvert hparam .int2
  exact ⟨d, hd, hiff.mpr (by decide)⟩

/-- `70000` is stored as `4464` in a column of type `INT2`. -/
theorem wrapped : convertParamsFromPy sampleCodec sampleInterpreter [.int 70000] = .ok [.i64 70000] ∧
    (DynParam.i64 70000 : DynParam sampleCodec).toSql .int2 = .ok (some [0x11, 0x70]) ∧
    IntType.decode .int2 [0x11, 0x70] = some 4464 ∧
    ¬ Exact .int2 70000 ((DynParam.i64 70000 : DynParam sampleCodec).toSql .int2) := by
  refine ⟨rfl, rfl, by decide +kernel, ?_⟩
  intro h
  have hfits := (exact_i64_iff (c := sampleCodec) .int2 (by decide)).mp h
  exact absurd hfits (by decide)

end Hypern.Database
