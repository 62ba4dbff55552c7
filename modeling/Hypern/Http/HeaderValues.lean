import Hypern.Http.Request
import Hypern.Lib.Table
import Hypern.Lib.Utf8RoundTrip

/-! What is left of the header fields of a request once `HeaderMap::from_axum` has folded them
into one value for each name. -/

namespace Hypern.Http

open Lib

theorem utf8_toStr {value : List UInt8} {v : String} (h : toStr value = some v) : utf8 v = value := by
  unfold toStr at h
  split_ifs at h with hvisible
  have hv : String.ofList (value.map fun b => Char.ofNat b.toNat) = v := Option.some.inj h
  rw [← hv]
  apply utf8_ofList_ascii
  intro b hb
  have hbyte := List.all_eq_true.mp hvisible b hb
  simp only [Bool.or_eq_true, Bool.and_eq_true, decide_eq_true_eq, beq_iff_eq, UInt8.le_iff_toNat_le,
    UInt8.lt_iff_toNat_lt] at hbyte
  rcases hbyte with ⟨-, hlt⟩ | rfl
  · exact Nat.lt_trans hlt (by decide)
  · decide

namespace HeaderMap

variable {c : Crates} {fields : List (String × List UInt8)} {key v : String}

def getAll (c : Crates) (h : HeaderMap) (key : String) : List String :=
  h.headers.entries.filterMap fun e => if e.1 = c.toLowercase key then some e.2 else none

/-- Every value that was sent under a name is among those returned for it, and `None` is only
answered for a name that was not sent. -/
def KeepsValues (c : Crates) (fields : List (String × List UInt8)) : Prop :=
  ∀ key,
    (∀ field ∈ fields, c.toLowercase field.1 = c.toLowercase key →
      ∃ v ∈ (fromAxum c fields).getAll c key, utf8 v = field.2) ∧
    ((fromAxum c fields).get c key = none →
      ∀ field ∈ fields, c.toLowercase field.1 ≠ c.toLowercase key)

/-- All values are visible ASCII, and those sent under one name are the same. -/
structure OneValueEach (c : Crates) (fields : List (String × List UInt8)) : Prop where
  visible : ∀ field ∈ fields, (toStr field.2).isSome = true
  same : ∀ field ∈ fields, ∀ other ∈ fields,
    c.toLowercase field.1 = c.toLowercase other.1 → field.2 = other.2

/-- The fields that are readable as text, under their lower-case names. -/
def readable (c : Crates) (fields : List (String × List UInt8)) : List (String × String) :=
  fields.filterMap fun f => (toStr f.2).map fun v => (c.toLowercase f.1, v)

theorem getAll_eq (h : HeaderMap) : h.getAll c key = (h.get c key).toList :=
  Table.filterMap_key h.headers (c.toLowercase key)

/-- The last readable value wins. -/
theorem get_fromAxum : (fromAxum c fields).get c key =
    (Table.valuesOf (c.toLowercase key) (readable c fields)).getLast? := by
  have hlookup := Table.lookup_foldl_insert (readable c fields) ∅ (c.toLowercase key)
  rw [AList.lookup_empty, Option.or_none] at hlookup
  exact hlookup

theorem mem_readable : (c.toLowercase key, v) ∈ readable c fields ↔
    ∃ field ∈ fields, c.toLowercase field.1 = c.toLowercase key ∧ toStr field.2 = some v := by
  unfold readable
  simp only [List.mem_filterMap, Option.map_eq_some_iff, Prod.mk.injEq]
  constructor
  · rintro ⟨field, hfield, w, hw, hname, rfl⟩
    exact ⟨field, hfield, hname, hw⟩
  · rintro ⟨field, hfield, hname, hv⟩
    exact ⟨field, hfield, v, hv, hname, rfl⟩

/-- What is answered was sent. -/
theorem sent_of_get (h : (fromAxum c fields).get c key = some v) :
    ∃ field ∈ fields, c.toLowercase field.1 = c.toLowercase key ∧ toStr field.2 = some v := by
  rw [get_fromAxum] at h
  exact mem_readable.mp (Table.mem_valuesOf.mp (List.mem_of_getLast? h))

theorem get_of_visible {field : String × List UInt8} (hfield : field ∈ fields)
    (hvisible : (toStr field.2).isSome = true) (hname : c.toLowercase field.1 = c.toLowercase key) :
    ∃ v, (fromAxum c fields).get c key = some v := by
  obtain ⟨v, hv⟩ := Option.isSome_iff_exists.mp hvisible
  have hmem : v ∈ Table.valuesOf (c.toLowercase key) (readable c fields) :=
    Table.mem_valuesOf.mpr (mem_readable.mpr ⟨field, hfield, hname, hv⟩)
  rw [get_fromAxum]
  exact ⟨_, List.getLast?_eq_some_getLast (List.ne_nil_of_mem hmem)⟩

/-- Nothing is lost exactly if there is one readable value for each name. -/
theorem keepsValues_iff (c : Crates) (fields : List (String × List UInt8)) :
    KeepsValues c fields ↔ OneValueEach c fields := by
  constructor
  · intro hkeeps
    -- the one value that is answered stands for every field of its name
    have hanswer : ∀ field ∈ fields, ∃ v, (fromAxum c fields).get c field.1 = some v ∧
        toStr field.2 = some v := by
      intro field hfield
      obtain ⟨v, hv, hbytes⟩ := (hkeeps field.1).1 field hfield rfl
      rw [getAll_eq, Option.mem_toList] at hv
      obtain ⟨origin, -, -, horigin⟩ := sent_of_get hv
      have hsame : origin.2 = field.2 := by rw [← utf8_toStr horigin, hbytes]
      exact ⟨v, hv, hsame ▸ horigin⟩
    refine ⟨fun field hfield => ?_, fun field hfield other hother hname => ?_⟩
    · obtain ⟨v, -, hv⟩ := hanswer field hfield
      rw [hv, Option.isSome_some]
    · obtain ⟨v, hget, hv⟩ := hanswer field hfield
      obtain ⟨w, hget', hw⟩ := hanswer other hother
      have heq : v = w := by
        unfold HeaderMap.get at hget hget'
        rw [hname, hget'] at hget
        exact (Option.some.inj hget).symm
      rw [← utf8_toStr hv, ← utf8_toStr hw, heq]
  · intro hone key
    constructor
    · intro field hfield hname
      obtain ⟨v, hget⟩ := get_of_visible hfield (hone.visible field hfield) hname
      obtain ⟨origin, horigin, hkey, hv⟩ := sent_of_get hget
      refine ⟨v, ?_, ?_⟩
      · rw [getAll_eq, Option.mem_toList]
        exact hget
      · rw [utf8_toStr hv]
        exact hone.same origin horigin field hfield (hkey.trans hname.symm)
    · intro hget field hfield hname
      obtain ⟨v, hv⟩ := get_of_visible hfield (hone.visible field hfield) hname
      rw [hget] at hv
      cases hv

theorem repeated_field_lost :
    ¬ ∀ (c : Crates) (fields : List (String × List UInt8)), KeepsValues c fields := by
  intro h
  obtain ⟨v, hv, hbytes⟩ := (h asciiCase
    [("x-forwarded-for", utf8 "10.0.0.1"), ("x-forwarded-for", utf8 "10.0.0.2")]
    "X-Forwarded-For").1 ("x-forwarded-for", utf8 "10.0.0.1") (List.mem_cons_self ..) (by decide +kernel)
  have hlast : v = "10.0.0.2" := List.mem_singleton.mp hv
  rw [hlast] at hbytes
  exact absurd hbytes (by decide +kernel)

end HeaderMap

end Hypern.Http
