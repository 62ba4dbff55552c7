import Hypern.Lib.Dict
import Hypern.Lib.Fallible
import Hypern.Lib.Utf8
import Hypern.Python.Numeral

/-! `validation.py`. The decorators validate parts of a request and hand what they made of them to
the function they decorate, before the arguments that they got themselves. -/

namespace Hypern.App.Validation

open Lib Python

structure ErrorItem where
  kind : String
  msg : String
  deriving DecidableEq

structure ValidationError where
  message : String
  field : Option String
  errors : List ErrorItem

/-- What `to_dict` returns, without the keys it leaves out. -/
structure ErrorDict where
  message : String
  field : Option String
  errors : Option (List ErrorItem)
  deriving DecidableEq

def ValidationError.toDict (e : ValidationError) : ErrorDict where
  message := e.message
  field := e.field.filter (· ≠ "")
  errors := if e.errors = [] then none else some e.errors

/-- A `ValidationError` of this module, or an exception of another class. -/
inductive Raised
  | validation (e : ValidationError)
  | other (e : PyExc)

/-- What is not a text or made of one is left to `O`, and the floats to `F`. -/
inductive Value (F O : Type)
  | str (s : String)
  | int (i : ℤ)
  | float (f : F)
  | bool (b : Bool)
  | other (o : O)

inductive Cls
  | str
  | int
  | float
  | bool
  | noneType
  | other (name : String)
  deriving DecidableEq

/-- An annotation: a class, or a `Union`. -/
inductive Hint
  | cls (c : Cls)
  | union (args : List Cls)

/-- The class that a text is made into; of a `Union`, the first that is not `NoneType`. -/
def Hint.expectedType : Hint → Cls
  | .cls c => c
  | .union args => (args.find? (· ≠ .noneType)).getD .str

/-- The interpreter, and `msgspec.json.encode`. -/
structure Runtime (F O : Type) where
  py : Interpreter
  float : String → Except PyExc F
  encode : Dict String (Value F O) → Except PyExc (List UInt8)

inductive Data (F O : Type)
  | bytes (b : List UInt8)
  | str (s : String)
  | dict (d : Dict String (Value F O))

/-- The annotations of the schema, and the decoder that `msgspec` makes of it. -/
structure Validator (V : Type) where
  hints : List (String × Hint)
  decode : List UInt8 → Except PyExc V

variable {F O V R σ : Type} (rt : Runtime F O)

/-- `try convert(value) except ValueError: value` -/
def orText {α : Type} (value : String) (wrap : α → Value F O) : Except PyExc α → Except PyExc (Value F O)
  | .ok a => .ok (wrap a)
  | .error e => if e.isInstance "ValueError" then .ok (.str value) else .error e

def isTrueText (value : String) : Bool :=
  ["true", "1", "yes", "on"].contains (String.ofList (value.toList.map Char.toLower))

def coerceText (hint : Hint) (value : String) : Except PyExc (Value F O) :=
  match hint.expectedType with
  | .int => orText value .int (rt.py.int value.toList)
  | .float => orText value .float (rt.float value)
  | .bool => .ok (.bool (isTrueText value))
  | _ => .ok (.str value)

def coerceValue (hints : List (String × Hint)) (key : String) (value : Value F O) :
    Except PyExc (Value F O) :=
  match hints.lookup key, value with
  | some hint, .str s => coerceText rt hint s
  | _, _ => .ok value

def coerceTypes (hints : List (String × Hint)) (data : Dict String (Value F O)) :
    Except PyExc (Dict String (Value F O)) :=
  data.entries.foldlM (fun result e => (coerceValue rt hints e.1 e.2).map (result.setItem e.1)) .empty

namespace Validator

/-- What the two exceptions of `msgspec` become. -/
def translate (e : PyExc) : Raised :=
  if e.isInstance "msgspec.ValidationError" then
    .validation ⟨e.message, none, [⟨"validation_error", e.message⟩]⟩
  else if e.isInstance "msgspec.DecodeError" then
    .validation ⟨"Invalid JSON: " ++ e.message, none, [⟨"decode_error", e.message⟩]⟩
  else .other e

def toBytes : Data F O → Except PyExc (List UInt8)
  | .dict d => rt.encode d
  | .str s => .ok (utf8 s)
  | .bytes b => .ok b

def validate (v : Validator V) (data : Data F O) : Except Raised V :=
  match toBytes rt data >>= v.decode with
  | .ok value => .ok value
  | .error e => .error (translate e)

def validateWithCoercion (v : Validator V) (data : Dict String (Value F O)) : Except Raised V :=
  let result := match coerceTypes rt v.hints data with
    | .ok coerced => v.validate rt (.dict coerced)
    | .error e => .error (.other e)
  match result with
  | .error (.other e) =>
    if e.isException then
      .error (.validation
        ⟨"Type coercion failed: " ++ e.message, none, [⟨"coercion_error", e.message⟩]⟩)
    else .error (.other e)
  | result => result

end Validator

/-! ## The decorators -/

structure Request where
  body : List UInt8
  queryParams : Dict String String
  pathParams : Dict String String

/-- A call of a method of the response. -/
inductive Write
  | status (code : Nat)
  | json (d : ErrorDict)
  deriving DecidableEq

/-- What was done to the response, and all else that a handler may change. -/
structure World (σ : Type) where
  writes : List Write
  rest : σ

/-- A handler, up to the end of its coroutine where it has one. It gets the arguments after the
request, the response and the context; `none` is Python's `None`. -/
abbrev Func (V R σ : Type) := Request → List V → World σ → Except Raised (Option R) × World σ

/-- `res.status(400).json(e.to_dict())` -/
def World.reject (w : World σ) (e : ValidationError) : World σ :=
  { w with writes := w.writes ++ [.status 400, .json e.toDict] }

/-- `except ValidationError` -/
def guarded : Except Raised (Option R) × World σ → Except Raised (Option R) × World σ
  | (.error (.validation e), w) => (.ok none, w.reject e)
  | outcome => outcome

def textDict (d : Dict String String) : Dict String (Value F O) where
  entries := d.entries.map fun e => (e.1, .str e.2)
  nodup := by
    rw [List.map_map]
    exact d.nodup

/-- What a validator is applied to. -/
inductive Part
  | body
  | query
  | params
  deriving DecidableEq

def Part.check (v : Validator V) (req : Request) : Part → Except Raised V
  | .body => v.validate rt (.bytes req.body)
  | .query => v.validateWithCoercion rt (textDict req.queryParams)
  | .params => v.validateWithCoercion rt (textDict req.pathParams)

/-- The wrapper that the decorators of one part have in common. -/
def wrap (part : Part) (v : Validator V) (func : Func V R σ) : Func V R σ := fun req args w =>
  guarded (match part.check rt v req with
    | .ok validated => func req (validated :: args) w
    | .error e => (.error e, w))

def validateBody (v : Validator V) : Func V R σ → Func V R σ := wrap rt .body v

def validateQuery (v : Validator V) : Func V R σ → Func V R σ := wrap rt .query v

def validateParams (v : Validator V) : Func V R σ → Func V R σ := wrap rt .params v

/-- `validated_args.append(...)`, if there is a validator. -/
def appendChecked (part : Part) (v : Option (Validator V)) (req : Request) (validated : List V) :
    Except Raised (List V) :=
  match v with
  | some v => (part.check rt v req).map fun value => validated ++ [value]
  | none => .ok validated

def validate (body query params : Option (Validator V)) (func : Func V R σ) : Func V R σ :=
  fun req args w =>
    let validatedArgs := appendChecked rt .body body req [] >>= fun validated =>
      appendChecked rt .query query req validated >>= appendChecked rt .params params req
    guarded (match validatedArgs with
      | .ok validated => func req (validated ++ args) w
      | .error e => (.error e, w))

/-! ## Coercion -/

section Coercion

variable {rt} {hints : List (String × Hint)} {data d : Dict String (Value F O)}

theorem coerceText_str {hint : Hint} {value s : String}
    (h : coerceText rt hint value = .ok (.str s)) : s = value := by
  have hor : ∀ {α : Type} (wrap : α → Value F O) (r : Except PyExc α), (∀ a, wrap a ≠ .str s) →
      orText value wrap r = .ok (.str s) → s = value := by
    intro α wrap r hwrap hr
    cases r with
    | ok a => exact absurd (Except.ok.inj hr) (hwrap a)
    | error e =>
      simp only [orText] at hr
      split_ifs at hr
      cases hr
      rfl
  unfold coerceText at h
  split at h
  · exact hor _ _ nofun h
  · exact hor _ _ nofun h
  · cases h
  · cases h
    rfl

/-- What was made of a value is left as it is. -/
theorem coerceValue_coerceValue {key : String} {value out : Value F O}
    (h : coerceValue rt hints key value = .ok out) : coerceValue rt hints key out = .ok out := by
  unfold coerceValue at h ⊢
  cases hhint : hints.lookup key with
  | none => rfl
  | some hint =>
    rw [hhint] at h
    cases out with
    | str s =>
      cases value with
      | str text =>
        obtain rfl := coerceText_str h
        exact h
      | _ => cases h
    | _ => rfl

theorem coerceTypes_eq (hints : List (String × Hint)) (data : Dict String (Value F O)) :
    coerceTypes rt hints data =
      (data.entries.mapM fun e => (coerceValue rt hints e.1 e.2).map fun out => (e.1, out)).map
        (List.foldl (fun d e => d.setItem e.1 e.2) .empty) := by
  rw [← foldlM_eq_mapM]
  unfold coerceTypes
  congr 1
  funext result e
  cases coerceValue rt hints e.1 e.2 <;> rfl

theorem keys_of_mapM {entries out : List (String × Value F O)}
    (h : (entries.mapM fun e => (coerceValue rt hints e.1 e.2).map fun out => (e.1, out)) = .ok out) :
    out.map Prod.fst = entries.map Prod.fst := by
  have hall := forall₂_of_mapM h
  clear h
  induction hall with
  | nil => rfl
  | @cons e _ _ _ hentry _ ih =>
    rw [List.map_cons, List.map_cons, ih]
    cases hvalue : coerceValue rt hints e.1 e.2 with
    | error x =>
      rw [hvalue] at hentry
      cases hentry
    | ok value =>
      rw [hvalue] at hentry
      cases hentry
      rfl

theorem entries_coerceTypes (h : coerceTypes rt hints data = .ok d) :
    (data.entries.mapM fun e => (coerceValue rt hints e.1 e.2).map fun out => (e.1, out)) =
      .ok d.entries := by
  rw [coerceTypes_eq] at h
  cases hmap : data.entries.mapM fun e => (coerceValue rt hints e.1 e.2).map fun out => (e.1, out) with
  | error e =>
    rw [hmap] at h
    cases h
  | ok out =>
    rw [hmap] at h
    rw [← Except.ok.inj h, Dict.entries_foldl_setItem (keys_of_mapM hmap ▸ data.nodup)]

end Coercion

/-- Coercion keeps the keys and their order, and what it gives it leaves as it is: a validator decides
of it as of the data. Of the exceptions of class `Exception` only `ValidationError` gets out. -/
theorem coercion_settles (v : Validator V) (data : Dict String (Value F O)) :
    (∀ d, coerceTypes rt v.hints data = .ok d →
      d.keys = data.keys ∧ coerceTypes rt v.hints d = .ok d ∧
        v.validateWithCoercion rt d = v.validateWithCoercion rt data) ∧
      ∀ e, v.validateWithCoercion rt data = .error (.other e) → e.isException = false := by
  constructor
  · intro d hd
    have hentries := entries_coerceTypes hd
    have hsettled : coerceTypes rt v.hints d = .ok d := by
      have hself : (d.entries.mapM fun e => (coerceValue rt v.hints e.1 e.2).map fun out => (e.1, out)) =
          .ok d.entries := by
        refine mapM_eq_self fun e he => ?_
        obtain ⟨entry, -, hentry⟩ := exists_of_mem_mapM hentries he
        cases hvalue : coerceValue rt v.hints entry.1 entry.2 with
        | error x =>
          rw [hvalue] at hentry
          cases hentry
        | ok value =>
          rw [hvalue] at hentry
          cases hentry
          rw [coerceValue_coerceValue hvalue]
          rfl
      rw [coerceTypes_eq, hself]
      exact congrArg Except.ok (Dict.ext (Dict.entries_foldl_setItem d.nodup))
    refine ⟨keys_of_mapM hentries, hsettled, ?_⟩
    unfold Validator.validateWithCoercion
    rw [hsettled, hd]
  · intro e he
    unfold Validator.validateWithCoercion at he
    dsimp only at he
    split at he
    · split_ifs at he with hexception
      · cases he
      · cases he
        exact eq_false_of_ne_true hexception
    · rename_i hother
      exact absurd he (hother e)

/-! ## Stacked decorators -/

/-- The decorators above a function, from the outside in. -/
def stack (ds : List (Part × Validator V)) (func : Func V R σ) : Func V R σ :=
  ds.foldr (fun d func => wrap rt d.1 d.2 func) func

example (body query params : Validator V) (func : Func V R σ) :
    stack rt [(.params, params), (.query, query), (.body, body)] func =
      validateParams rt params (validateQuery rt query (validateBody rt body func)) :=
  rfl

/-- The parts that `validate` is given a schema for. -/
def given (body query params : Option (Validator V)) : List (Part × Validator V) :=
  (body.map (Part.body, ·)).toList ++ (query.map (Part.query, ·)).toList ++
    (params.map (Part.params, ·)).toList

/-- The values of the parts `ds`, or the first error. -/
def checked (ds : List (Part × Validator V)) (req : Request) : Except Raised (List V) :=
  ds.mapM fun d => d.1.check rt d.2 req

/-- The errors of the parts that are not valid, in their order. -/
def failures (ds : List (Part × Validator V)) (req : Request) : List Raised :=
  ds.filterMap (failureOf fun d => d.1.check rt d.2 req)

theorem guarded_guarded (outcome : Except Raised (Option R) × World σ) :
    guarded (guarded outcome) = guarded outcome := by
  obtain ⟨result, w⟩ := outcome
  cases result with
  | ok value => rfl
  | error e =>
    cases e <;> rfl

/-- A stack checks its parts from the outside in; the function gets the last value first. -/
theorem stack_eq {ds : List (Part × Validator V)} (hne : ds ≠ []) (func : Func V R σ) (req : Request)
    (args : List V) (w : World σ) :
    stack rt ds func req args w =
      guarded (match checked rt ds req with
        | .ok vs => func req (vs.reverse ++ args) w
        | .error e => (.error e, w)) := by
  induction ds generalizing args with
  | nil => exact absurd rfl hne
  | cons d ds ih =>
    change wrap rt d.1 d.2 (stack rt ds func) req args w = _
    unfold wrap checked
    rw [List.mapM_cons]
    cases d.1.check rt d.2 req with
    | error e => rfl
    | ok value =>
      cases ds with
      | nil => rfl
      | cons d' ds =>
        dsimp only
        rw [ih (List.cons_ne_nil _ _), guarded_guarded, checked]
        change _ = guarded (match (do
            let vs ← (d' :: ds).mapM fun d => d.1.check rt d.2 req
            pure (value :: vs) : Except Raised (List V)) with
          | .ok vs => func req (vs.reverse ++ args) w
          | .error e => (.error e, w))
        cases (d' :: ds).mapM fun d => d.1.check rt d.2 req with
        | error e => rfl
        | ok vs =>
          change _ = guarded (func req ((value :: vs).reverse ++ args) w)
          rw [List.reverse_cons, List.append_assoc, List.singleton_append]

theorem appendChecked_bind (part : Part) (v : Option (Validator V)) (req : Request)
    (ds : List (Part × Validator V)) :
    (checked rt ds req >>= appendChecked rt part v req) =
      checked rt (ds ++ (v.map (part, ·)).toList) req := by
  unfold checked
  rw [List.mapM_append]
  cases ds.mapM fun d => d.1.check rt d.2 req with
  | error e => rfl
  | ok vs =>
    cases v with
    | none => exact congrArg Except.ok (List.append_nil vs).symm
    | some v =>
      change (part.check rt v req).map (fun value => vs ++ [value]) = do
        let vs' ← [(part, v)].mapM fun d => d.1.check rt d.2 req
        pure (vs ++ vs')
      rw [List.mapM_cons]
      dsimp only
      cases part.check rt v req <;> rfl

theorem validate_eq (body query params : Option (Validator V)) (func : Func V R σ) (req : Request)
    (args : List V) (w : World σ) :
    validate rt body query params func req args w =
      guarded (match checked rt (given body query params) req with
        | .ok vs => func req (vs ++ args) w
        | .error e => (.error e, w)) := by
  have hchecked : (appendChecked rt .body body req [] >>= fun validated =>
      appendChecked rt .query query req validated >>= appendChecked rt .params params req) =
        checked rt (given body query params) req := by
    have hbody := appendChecked_bind rt .body body req []
    unfold given
    rw [← appendChecked_bind, ← appendChecked_bind, bind_assoc]
    exact congrArg (· >>= _) hbody
  unfold validate
  rw [hchecked]

/-- `validate` answers as its decorators do one above the other, `validate_params` outermost: with the
same call of the function if all parts are valid, and with the same error if one is not. If several are
not, `validate` answers the error of the first of body, query and params, and the decorators that of
the last. -/
theorem validate_eq_stack {body query params : Option (Validator V)} (func : Func V R σ) (req : Request)
    (args : List V) (w : World σ) (hgiven : given body query params ≠ []) :
    (∀ vs, checked rt (given body query params) req = .ok vs →
      validate rt body query params func req args w = guarded (func req (vs ++ args) w) ∧
        stack rt (given body query params).reverse func req args w =
          guarded (func req (vs ++ args) w)) ∧
      (∀ e, (failures rt (given body query params) req).head? = some e →
        validate rt body query params func req args w = guarded (.error e, w)) ∧
      ∀ e, (failures rt (given body query params) req).getLast? = some e →
        stack rt (given body query params).reverse func req args w = guarded (.error e, w) := by
  have hreverse : (given body query params).reverse ≠ [] := by
    rw [Ne, List.reverse_eq_nil_iff]
    exact hgiven
  refine ⟨fun vs hvs => ⟨?_, ?_⟩, fun e he => ?_, fun e he => ?_⟩
  · rw [validate_eq, hvs]
  · have hvs' : checked rt (given body query params).reverse req = .ok vs.reverse := mapM_reverse hvs
    rw [stack_eq rt hreverse, hvs']
    dsimp only
    rw [List.reverse_reverse]
  · have hfirst : checked rt (given body query params) req = .error e := mapM_eq_error_iff.mpr he
    rw [validate_eq, hfirst]
  · have hlast : checked rt (given body query params).reverse req = .error e := by
      unfold checked
      rw [mapM_eq_error_iff, List.filterMap_reverse, List.head?_reverse]
      exact he
    rw [stack_eq rt hreverse, hlast]

def asciiDecimal (c : Char) : Option Nat :=
  if c.isDigit then some (c.toNat - '0'.toNat) else none

theorem asciiDecimal_digit {c : Char} (h : c.isDigit = true) :
    asciiDecimal c = some (c.toNat - '0'.toNat) :=
  if_pos h

/-- The digits of ASCII, as many as there are, and no floats. -/
def asciiRuntime : Runtime Unit Unit where
  py :=
    { decimal := asciiDecimal
      decimal_digit := asciiDecimal_digit
      repr := fun s => "'" ++ String.ofList s ++ "'"
      maxStrDigits := 0
      maxStrDigits_ge := .inl rfl }
  float _ := .error (valueError "could not convert string to float")
  encode _ := .ok (utf8 "{}")

/-- A schema that nothing meets. -/
def unmet (message : String) : Validator Unit where
  hints := []
  decode _ := .error ⟨["msgspec.ValidationError", "msgspec.DecodeError", "msgspec.MsgspecError",
    "Exception", "BaseException", "object"], message⟩

theorem validate_eq_stack_twoErrors :
    validate asciiRuntime (some (unmet "body")) (some (unmet "query")) none
        (fun _ _ w => (.ok (some ()), w)) ⟨[], .empty, .empty⟩ [] ⟨[], ()⟩ =
      (.ok none, ⟨[.status 400, .json ⟨"body", none, some [⟨"validation_error", "body"⟩]⟩], ()⟩) ∧
    stack asciiRuntime [(.query, unmet "query"), (.body, unmet "body")]
        (fun _ _ w => (.ok (some ()), w)) ⟨[], .empty, .empty⟩ [] ⟨[], ()⟩ =
      (.ok none, ⟨[.status 400, .json ⟨"query", none, some [⟨"validation_error", "query"⟩]⟩], ()⟩) := by
  obtain ⟨-, hfirst, hlast⟩ := @validate_eq_stack Unit Unit Unit Unit Unit asciiRuntime
    (some (unmet "body")) (some (unmet "query")) none (fun _ _ w => (.ok (some ()), w))
    ⟨[], .empty, .empty⟩ [] ⟨[], ()⟩ (List.cons_ne_nil _ _)
  exact ⟨hfirst (.validation ⟨"body", none, [⟨"validation_error", "body"⟩]⟩) rfl,
    hlast (.validation ⟨"query", none, [⟨"validation_error", "query"⟩]⟩) rfl⟩

end Hypern.App.Validation
