import Hypern.Python.Json
import Mathlib.Data.List.Basic

/-! The JSON schemas that `OpenAPIGenerator` makes of types, and what a `msgspec` struct and a
dataclass with the same fields are registered as. -/

namespace Hypern.OpenApi

open Python

/-! ## Types -/

/-- The default of a field: a string, a value that equals no string, or a factory. -/
inductive Default
  | str (s : String)
  | other
  | factory
  deriving DecidableEq

/-- The types that `schema_from_type` tells apart; `args` is `__args__`. -/
inductive TypeHint
  | null | str | int | float | bool | bytes
  | list (args : List TypeHint)
  | dict (args : List TypeHint)
  | union (args : List TypeHint)
  | struct (name : String) (fields : List (String × TypeHint × Option Default))
  | dataclass (name : String) (fields : List (String × TypeHint × Option Default))
  | other

abbrev Field := String × TypeHint × Option Default

namespace Field

def name (f : Field) : String := f.1

def default (f : Field) : Option Default := f.2.2

end Field

/-- `__struct_defaults__`: the defaults of the fields from the first one that has a default on, with
a marker for those that have none. -/
def structDefaults (fields : List Field) : List (Option Default) :=
  (fields.dropWhile fun f => f.default.isNone).map Field.default

/-! ## Schemas -/

/-- What is registered for a class. -/
structure ObjectSchema where
  properties : Dict
  required : List String

def ObjectSchema.toJson (schema : ObjectSchema) : Json :=
  .dict [("type", .str "object"), ("properties", .dict schema.properties),
    ("required", .list (schema.required.map .str))]

def anySchema : Json := .dict [("type", .str "object")]

def ref (name : String) : Json := .dict [("$ref", .str ("#/components/schemas/" ++ name))]

/-- `schema["nullable"] = True` -/
def setNullable : Json → Json
  | .dict d => .dict (Dict.set d "nullable" (.bool true))
  | v => v

/-- `field_name not in defaults`, where `defaults` are values. -/
def structRequired (fields : List Field) : List String :=
  (fields.filter fun f => decide (some (.str f.name) ∉ structDefaults fields)).map Field.name

def dataclassRequired (fields : List Field) : List String :=
  (fields.filter fun f => f.default.isNone).map Field.name

mutual

/-- The schema of a type, and the registered schemas with those of the classes in it. -/
def schemaFromType : TypeHint → Dict → Json × Dict
  | .null, schemas => (.dict [("type", .str "null")], schemas)
  | .str, schemas => (.dict [("type", .str "string")], schemas)
  | .int, schemas => (.dict [("type", .str "integer")], schemas)
  | .float, schemas => (.dict [("type", .str "number")], schemas)
  | .bool, schemas => (.dict [("type", .str "boolean")], schemas)
  | .bytes, schemas => (.dict [("type", .str "string"), ("format", .str "binary")], schemas)
  | .list [], schemas => (.dict [("type", .str "array"), ("items", anySchema)], schemas)
  | .list (itemType :: _), schemas =>
    let (items, schemas) := schemaFromType itemType schemas
    (.dict [("type", .str "array"), ("items", items)], schemas)
  | .dict (_ :: valueType :: _), schemas =>
    let (values, schemas) := schemaFromType valueType schemas
    (.dict [("type", .str "object"), ("additionalProperties", values)], schemas)
  | .dict _, schemas =>
    (.dict [("type", .str "object"), ("additionalProperties", anySchema)], schemas)
  | .union args, schemas =>
    match nonNoneSchemas args schemas with
    | ([schema], schemas) => (setNullable schema, schemas)
    | (oneOf, schemas) => (.dict [("oneOf", .list oneOf)], schemas)
  | .struct name fields, schemas =>
    let (properties, schemas) := propertiesOf fields [] schemas
    (ref name, Dict.set schemas name (ObjectSchema.toJson ⟨properties, structRequired fields⟩))
  | .dataclass name fields, schemas =>
    let (properties, schemas) := propertiesOf fields [] schemas
    (ref name, Dict.set schemas name (ObjectSchema.toJson ⟨properties, dataclassRequired fields⟩))
  | .other, schemas => (anySchema, schemas)

/-- The schemas of the members of a union, without `None`. -/
def nonNoneSchemas : List TypeHint → Dict → List Json × Dict
  | [], schemas => ([], schemas)
  | .null :: args, schemas => nonNoneSchemas args schemas
  | arg :: args, schemas =>
    let (schema, schemas) := schemaFromType arg schemas
    let (oneOf, schemas) := nonNoneSchemas args schemas
    (schema :: oneOf, schemas)

/-- The loop over the fields, as far as it fills the properties. -/
def propertiesOf : List (String × TypeHint × Option Default) → Dict → Dict → Dict × Dict
  | [], properties, schemas => (properties, schemas)
  | (name, fieldType, _) :: fields, properties, schemas =>
    let (schema, schemas) := schemaFromType fieldType schemas
    propertiesOf fields (Dict.set properties name schema) schemas

end

/-! ## Structs and dataclasses -/

/-- Both classes are registered with the same properties and the same required fields, and these
are the ones without a default. -/
def ClassesAgree (name : String) (fields : List Field) (schemas : Dict) : Prop :=
  ∃ struct dataclass : ObjectSchema,
    Dict.get? (schemaFromType (.struct name fields) schemas).2 name = some struct.toJson ∧
    Dict.get? (schemaFromType (.dataclass name fields) schemas).2 name = some dataclass.toJson ∧
    struct.properties = dataclass.properties ∧ struct.required = dataclass.required ∧
    ∀ f ∈ fields, f.name ∈ struct.required ↔ f.default = none

theorem ObjectSchema.toJson_injective : Function.Injective ObjectSchema.toJson := by
  rintro ⟨properties, required⟩ ⟨properties', required'⟩ h
  simp only [toJson, Json.dict.injEq, List.cons.injEq, Prod.mk.injEq, true_and, and_true,
    Json.list.injEq] at h
  obtain ⟨rfl, hrequired⟩ := h
  have hstr : Function.Injective Json.str := fun _ _ => Json.str.inj
  rw [List.map_injective_iff.mpr hstr hrequired]

theorem registered_struct (name : String) (fields : List Field) (schemas : Dict) :
    Dict.get? (schemaFromType (.struct name fields) schemas).2 name =
      some (ObjectSchema.toJson ⟨(propertiesOf fields [] schemas).1, structRequired fields⟩) := by
  rw [schemaFromType, Dict.get?_set, if_pos rfl]

theorem registered_dataclass (name : String) (fields : List Field) (schemas : Dict) :
    Dict.get? (schemaFromType (.dataclass name fields) schemas).2 name =
      some (ObjectSchema.toJson ⟨(propertiesOf fields [] schemas).1, dataclassRequired fields⟩) := by
  rw [schemaFromType, Dict.get?_set, if_pos rfl]

theorem mem_structRequired {fields : List Field} {f : Field} (hf : f ∈ fields) :
    f.name ∈ structRequired fields ↔ some (.str f.name) ∉ structDefaults fields := by
  simp only [structRequired, List.mem_map, List.mem_filter, decide_eq_true_eq]
  constructor
  · rintro ⟨f', ⟨-, hnot⟩, hname⟩
    rwa [hname] at hnot
  · intro hnot
    exact ⟨f, ⟨hf, hnot⟩, rfl⟩

/-- What agreement says about the required fields alone. -/
theorem required_of_classesAgree {name : String} {fields : List Field} {schemas : Dict}
    (h : ClassesAgree name fields schemas) :
    ∀ f ∈ fields, f.name ∈ structRequired fields ↔ f.default = none := by
  obtain ⟨struct, -, hstruct, -, -, -, hrequired⟩ := h
  rw [registered_struct] at hstruct
  obtain rfl := ObjectSchema.toJson_injective (Option.some.inj hstruct)
  exact hrequired

/-- The two registrations agree exactly when the names of the fields with a default, and of no
others, are among the default values. -/
theorem classesAgree_iff (name : String) (fields : List Field) (schemas : Dict) :
    ClassesAgree name fields schemas ↔
      ∀ f ∈ fields, (f.default ≠ none ↔ some (.str f.name) ∈ structDefaults fields) := by
  constructor
  · intro h f hf
    have hrequired := required_of_classesAgree h f hf
    rw [mem_structRequired hf] at hrequired
    tauto
  · intro h
    have hsame : structRequired fields = dataclassRequired fields := by
      have hfilter : ∀ f ∈ fields,
          decide (some (.str f.name) ∉ structDefaults fields) = f.default.isNone := by
        intro f hf
        rw [Bool.eq_iff_iff, decide_eq_true_eq, Option.isNone_iff_eq_none, ← h f hf, not_not]
      rw [structRequired, dataclassRequired, List.filter_congr hfilter]
    refine ⟨_, _, registered_struct name fields schemas, registered_dataclass name fields schemas,
      rfl, hsame, fun f hf => ?_⟩
    rw [mem_structRequired hf, ← h f hf, not_not]

def queryFields : List Field := [("title", .str, none), ("page", .int, some .other)]

/-- A field with a default is required of a struct. -/
theorem default_is_required : structRequired queryFields = ["title", "page"] ∧
    dataclassRequired queryFields = ["title"] ∧ ¬ ClassesAgree "Query" queryFields [] := by
  refine ⟨by decide, by decide, fun h => ?_⟩
  have hpage := required_of_classesAgree h ("page", .int, some .other) (by simp [queryFields])
  have hnone : (some Default.other : Option Default) = none := hpage.mp (by decide)
  cases hnone

end Hypern.OpenApi
