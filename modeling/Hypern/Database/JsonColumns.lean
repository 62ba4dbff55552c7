import Hypern.Python.Convert

/-! `row_converter.rs`: documents out of JSON columns, against those out of request bodies. -/

namespace Hypern.Database

open Python

variable {F : F64}

/-- `RowConverter::json_to_py` -/
def jsonToPy : JsonValue F → PyValue F
  | .null => .none
  | .bool b => .bool b
  | .number n =>
    match n.asI64 with
    | some i => .int i
    | none =>
      match n.asF64 with
      | some f => .float f
      | none => .none
  | .string s => .str (.ofString s)
  | .array arr => .list (arr.map jsonToPy)
  | .object obj => .dict (obj.foldl
    (fun dict e => PyValue.setItem (.ofString e.1) (jsonToPy e.2) dict) [])
decreasing_by
  · exact Nat.lt_of_lt_of_le (List.sizeOf_lt_of_mem (by assumption)) (by simp)
  · exact Nat.lt_of_lt_of_le (sizeOf_snd_lt (by assumption)) (by simp)

/-- The numbers of a document, at every depth. -/
def numbers : JsonValue F → List (JsonNumber F)
  | .null => []
  | .bool _ => []
  | .number n => [n]
  | .string _ => []
  | .array arr => arr.flatMap numbers
  | .object obj => obj.flatMap fun e => numbers e.2
decreasing_by
  · exact Nat.lt_of_lt_of_le (List.sizeOf_lt_of_mem (by assumption)) (by simp)
  · exact Nat.lt_of_lt_of_le (sizeOf_snd_lt (by assumption)) (by simp)

/-- A number below `2 ^ 63`, or no unsigned integer at all. -/
def BelowI64Max (n : JsonNumber F) : Prop := ∀ u, n.asU64 = some u → u < 2 ^ 63

/-- A large unsigned integer goes the way of the floats, its sibling has a branch for it. -/
theorem jsonToPy_number_iff (n : JsonNumber F) :
    jsonToPy (.number n) = jsonValueToPy (.number n) ↔ BelowI64Max n := by
  rw [jsonToPy, jsonValueToPy]
  cases n with
  | posInt u hu =>
    by_cases hsmall : u < 2 ^ 63
    · have hi : (JsonNumber.posInt u hu : JsonNumber F).asI64 = some (u : Int) := if_pos hsmall
      rw [hi]
      refine iff_of_true rfl fun u' heq => ?_
      rwa [← Option.some.inj heq]
    · -- `json_value_to_py` asks for a `u64` before it settles for a float
      have hi : (JsonNumber.posInt u hu : JsonNumber F).asI64 = none := if_neg hsmall
      rw [hi]
      have hne : (PyValue.float (F.ofInt u) : PyValue F) ≠ .int u := by simp
      exact iff_of_false hne fun h => hsmall (h u rfl)
  | negInt i hi => exact iff_of_true rfl fun u heq => absurd heq.symm (Option.some_ne_none u)
  | float f hf => exact iff_of_true rfl fun u heq => absurd heq.symm (Option.some_ne_none u)

/-- Two conversions of an array agree when they agree on its items. -/
theorem map_eq_map_iff {convert convert' : JsonValue F → PyValue F} {P : JsonNumber F → Prop}
    {items : List (JsonValue F)}
    (h : ∀ v ∈ items, convert v = convert' v ↔ ∀ n ∈ numbers v, P n) :
    items.map convert = items.map convert' ↔ ∀ n ∈ items.flatMap numbers, P n := by
  rw [List.map_inj_left]
  simp only [List.mem_flatMap, forall_exists_index, and_imp]
  constructor
  · intro hall n v hv
    exact (h v hv).mp (hall v hv) n
  · intro hall v hv
    exact (h v hv).mpr fun n => hall n v hv

theorem jsonToPy_object {entries : List (String × JsonValue F)}
    (sorted : (entries.map Prod.fst).Pairwise (· < ·)) : jsonToPy (.object entries) =
      .dict (entries.map fun e => (.str (.ofString e.1), jsonToPy e.2)) := by
  rw [jsonToPy, foldl_setItem _ entries [] sorted (fun _ _ => List.forall_mem_nil _),
    List.nil_append]

theorem jsonValueToPy_object {entries : List (String × JsonValue F)}
    (sorted : (entries.map Prod.fst).Pairwise (· < ·)) : jsonValueToPy (.object entries) =
      .dict (entries.map fun e => (.str (.ofString e.1), jsonValueToPy e.2)) := by
  rw [jsonValueToPy, foldl_setItem _ entries [] sorted (fun _ _ => List.forall_mem_nil _),
    List.nil_append]

theorem jsonToPy_object_iff {entries : List (String × JsonValue F)}
    (sorted : (entries.map Prod.fst).Pairwise (· < ·))
    (h : ∀ e ∈ entries, jsonToPy e.2 = jsonValueToPy e.2 ↔ ∀ n ∈ numbers e.2, BelowI64Max n) :
    jsonToPy (.object entries) = jsonValueToPy (.object entries) ↔
      ∀ n ∈ entries.flatMap fun e => numbers e.2, BelowI64Max n := by
  have hvalues : ∀ v ∈ entries.map Prod.snd,
      jsonToPy v = jsonValueToPy v ↔ ∀ n ∈ numbers v, BelowI64Max n := by
    intro v hv
    obtain ⟨e, he, rfl⟩ := List.mem_map.mp hv
    exact h e he
  have hflat : entries.flatMap (fun e => numbers e.2) =
      (entries.map Prod.snd).flatMap numbers := (List.flatMap_map Prod.snd numbers entries).symm
  rw [hflat, ← map_eq_map_iff hvalues, jsonToPy_object sorted, jsonValueToPy_object sorted,
    PyValue.dict.injEq, List.map_map, List.map_map, List.map_inj_left, List.map_inj_left]
  refine forall_congr' fun e => imp_congr_right fun _ => ?_
  rw [Prod.mk.injEq]
  exact and_iff_right rfl

/-- A document of a column is that of a body but for the integers from `2 ^ 63` on. -/
theorem jsonToPy_eq_iff {v : JsonValue F} (h : v.Wf) :
    jsonToPy v = jsonValueToPy v ↔ ∀ n ∈ numbers v, BelowI64Max n := by
  induction h with
  | null =>
    rw [jsonToPy, jsonValueToPy, numbers]
    exact iff_of_true rfl (List.forall_mem_nil _)
  | bool b =>
    rw [jsonToPy, jsonValueToPy, numbers]
    exact iff_of_true rfl (List.forall_mem_nil _)
  | number n =>
    rw [numbers, List.forall_mem_singleton]
    exact jsonToPy_number_iff n
  | string s =>
    rw [jsonToPy, jsonValueToPy, numbers]
    exact iff_of_true rfl (List.forall_mem_nil _)
  | @array items _ ih =>
    rw [jsonToPy, jsonValueToPy, numbers, PyValue.list.injEq]
    exact map_eq_map_iff ih
  | @object entries sorted _ ih =>
    rw [numbers]
    exact jsonToPy_object_iff sorted ih

/-- `[1, -1.0]`, the numbers of which fit. -/
def smallNumbers : JsonValue sampleF64 :=
  .array [.number (.posInt 1 (by decide)), .number (.float (some (-1)) rfl)]

theorem smallNumbers_agree : jsonToPy smallNumbers = jsonValueToPy smallNumbers := by
  refine (jsonToPy_eq_iff (.array ?_)).mpr ?_
  · intro v hv
    rcases List.mem_pair.mp hv with rfl | rfl <;> exact .number _
  · simp [numbers, BelowI64Max, JsonNumber.asU64]

theorem largeNumber_differs :
    ¬ ∀ v : JsonValue sampleF64, v.Wf → jsonToPy v = jsonValueToPy v := by
  intro h
  have hsame := h (.number (.posInt (2 ^ 63) (by decide))) (.number _)
  have hlt := (jsonToPy_number_iff _).mp hsame (2 ^ 63) rfl
  exact lt_irrefl _ hlt

end Hypern.Database
