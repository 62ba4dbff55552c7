import Hypern.Lib.Fallible
import Hypern.Python.Convert

/-! What a Python value is as JSON, and where `py_to_json_value` writes something else: the items
of a sequence that all fit in bytes are read as a byte string before they are iterated. -/

namespace Hypern.Python

open Lib

variable {F : F64}

/-- The values that JSON has a form for. Tuples are sequences that are not lists. -/
inductive Data : PyValue F → Prop
  | none : Data .none
  | bool (b : Bool) : Data (.bool b)
  | int {i : Int} (h : -2 ^ 63 ≤ i ∧ i < 2 ^ 64) : Data (.int i)
  | float {f : F.Carrier} (h : F.finite f = true) : Data (.float f)
  | str (s : PyStr) : Data (.str s)
  | list {items : List (PyValue F)} (h : ∀ v ∈ items, Data v) : Data (.list items)
  | tuple {items : List (PyValue F)} (h : ∀ v ∈ items, Data v) : Data (.sequence items)
  | dict {entries : List (PyValue F × PyValue F)} (keys : ∀ e ∈ entries, ∃ s, e.1 = .str s)
    (distinct : (entries.map Prod.fst).Nodup) (h : ∀ e ∈ entries, Data e.2) : Data (.dict entries)

def JsonNumber.intValue : JsonNumber F → Option Int
  | .posInt n _ => some n
  | .negInt i _ => some i
  | .float _ _ => none

/-- The key of an entry as an object of Python. -/
def keyOf (o : String × JsonValue F) : PyValue F := .str (.ofString o.1)

/-- The JSON form of a value: an array of the forms of the items in their order, an object with
the same keys and the form of the value at each. -/
inductive Image : PyValue F → JsonValue F → Prop
  | none : Image .none .null
  | bool (b : Bool) : Image (.bool b) (.bool b)
  | int {i : Int} {n : JsonNumber F} (h : n.intValue = some i) : Image (.int i) (.number n)
  | float {f : F.Carrier} (h : F.finite f = true) : Image (.float f) (.number (.float f h))
  | str (s : String) : Image (.str (.ofString s)) (.string s)
  | list {items : List (PyValue F)} {arr : List (JsonValue F)} (length : items.length = arr.length)
    (h : ∀ {v j}, (v, j) ∈ items.zip arr → Image v j) : Image (.list items) (.array arr)
  | tuple {items : List (PyValue F)} {arr : List (JsonValue F)} (length : items.length = arr.length)
    (h : ∀ {v j}, (v, j) ∈ items.zip arr → Image v j) : Image (.sequence items) (.array arr)
  | dict {entries : List (PyValue F × PyValue F)} {obj : List (String × JsonValue F)}
    (keys : (obj.map keyOf).Perm (entries.map Prod.fst))
    (h : ∀ e ∈ entries, ∀ o ∈ obj, e.1 = keyOf o → Image e.2 o.2) :
    Image (.dict entries) (.object obj)

/-- No string has a lone surrogate, and every tuple has an item that is not an integer from `0` to
`255`. A tuple without items has none. -/
inductive Clean : PyValue F → Prop
  | none : Clean .none
  | bool (b : Bool) : Clean (.bool b)
  | int (i : Int) : Clean (.int i)
  | float (f : F.Carrier) : Clean (.float f)
  | str (s : String) : Clean (.str (.ofString s))
  | list {items : List (PyValue F)} (h : ∀ v ∈ items, Clean v) : Clean (.list items)
  | tuple {items : List (PyValue F)} (wide : ∃ v ∈ items, v.extractU8 = .none)
    (h : ∀ v ∈ items, Clean v) : Clean (.sequence items)
  | dict {entries : List (PyValue F × PyValue F)}
    (keys : ∀ e ∈ entries, ∃ s : String, e.1 = .str (.ofString s)) (h : ∀ e ∈ entries, Clean e.2) :
    Clean (.dict entries)

theorem image_list_iff {items : List (PyValue F)} {j : JsonValue F} :
    Image (.list items) j ↔ ∃ arr, j = .array arr ∧ List.Forall₂ Image items arr := by
  constructor
  · intro himage
    cases himage with
    | list hlength hall => exact ⟨_, rfl, List.forall₂_iff_zip.mpr ⟨hlength, hall⟩⟩
  · rintro ⟨arr, rfl, hall⟩
    obtain ⟨hlength, hzip⟩ := List.forall₂_iff_zip.mp hall
    exact .list hlength hzip

/-- JSON does not tell tuples from lists. -/
theorem image_tuple_iff {items : List (PyValue F)} {j : JsonValue F} :
    Image (.sequence items) j ↔ Image (.list items) j := by
  constructor
  · intro himage
    cases himage with
    | tuple hlength hall => exact .list hlength hall
  · intro himage
    cases himage with
    | list hlength hall => exact .tuple hlength hall

/-! ## Objects -/

theorem insertKey_perm {V : Type} {key : String} {map : List (String × V)}
    (h : ∀ e ∈ map, e.1 ≠ key) (value : V) :
    (insertKey key value map).Perm ((key, value) :: map) := by
  induction map with
  | nil => exact .refl _
  | cons e map ih =>
    obtain ⟨hne, hrest⟩ := List.forall_mem_cons.mp h
    rw [insertKey, if_neg hne.symm]
    split_ifs
    · exact .refl _
    · exact ((ih hrest).cons e).trans (.swap (key, value) e map)

theorem foldl_insertKey_perm {V : Type} {pairs map : List (String × V)}
    (h : ((map ++ pairs).map Prod.fst).Nodup) :
    (pairs.foldl (fun map p => insertKey p.1 p.2 map) map).Perm (map ++ pairs) := by
  induction pairs generalizing map with
  | nil => exact .of_eq (List.append_nil map).symm
  | cons p pairs ih =>
    have hnew : ∀ e ∈ map, e.1 ≠ p.1 := by
      intro e he
      rw [List.map_append, List.nodup_append] at h
      exact h.2.2 e.1 (List.mem_map_of_mem he) p.1 List.mem_cons_self
    have hinsert : (insertKey p.1 p.2 map ++ pairs).Perm (map ++ p :: pairs) :=
      ((insertKey_perm hnew p.2).append_right pairs).trans List.perm_middle.symm
    rw [List.foldl_cons]
    exact (ih ((hinsert.map Prod.fst).nodup_iff.mpr h)).trans hinsert

section

variable (str : PyValue F → Except PyExc PyStr)

/-- The entry of an object for one of a dictionary. -/
def pairOf (e : PyValue F × PyValue F) : Except PyExc (String × JsonValue F) := do
  let key ← keyText str e.1
  let value ← pyToJsonValue str e.2
  return (key, value)

theorem pyToJsonValue_dict_eq (entries : List (PyValue F × PyValue F)) :
    pyToJsonValue str (.dict entries) = (entries.mapM (pairOf str)).map fun pairs =>
      .object (pairs.foldl (fun map p => insertKey p.1 p.2 map) []) := by
  have hstep : (fun (map : List (String × JsonValue F)) (e : PyValue F × PyValue F) => do
      let key ← keyText str e.1
      let value ← pyToJsonValue str e.2
      return insertKey key value map) =
      fun map e => (pairOf str e).map (fun p => insertKey p.1 p.2 map) := by
    funext map e
    unfold pairOf
    cases keyText str e.1 with
    | error x => rfl
    | ok key => cases pyToJsonValue str e.2 <;> rfl
  rw [pyToJsonValue_dict, hstep, foldlM_eq_mapM (fun map (p : String × JsonValue F) =>
    insertKey p.1 p.2 map)]
  cases entries.mapM (pairOf str) <;> rfl

theorem pyToJsonValue_sequence (items : List (PyValue F)) : pyToJsonValue str (.sequence items) =
    match items.mapM PyValue.extractU8 with
    | some bytes => .ok (.string (fromUtf8Lossy bytes))
    | none => (items.mapM fun item => pyToJsonValue str item).map .array := by
  rw [pyToJsonValue.eq_def]
  rfl

theorem keyText_str_iff {s : PyStr} {key : String} :
    keyText str (.str s : PyValue F) = .ok key ↔ s = .ofString key := by
  change PyValue.extractString (.str s : PyValue F) = _ ↔ _
  rw [PyValue.extractString]
  constructor
  · intro h
    cases hs : s.plain? with
    | none =>
      rw [hs] at h
      cases h
    | some t =>
      rw [hs] at h
      cases h
      exact PyStr.plain?_eq_some hs
  · rintro rfl
    rw [PyStr.plain?_ofString]

/-- The conversion writes the JSON form of a value. -/
def Faithful (v : PyValue F) : Prop := ∃ j, pyToJsonValue str v = .ok j ∧ Image v j

/-- An entry and the pair that stands for it. -/
def Pairs (e : PyValue F × PyValue F) (p : String × JsonValue F) : Prop :=
  e.1 = keyOf p ∧ Image e.2 p.2

theorem exists_pair_iff {e : PyValue F × PyValue F} :
    (∃ p, pairOf str e = .ok p ∧ Pairs e p) ↔
      (∃ s : String, e.1 = .str (.ofString s)) ∧ Faithful str e.2 := by
  constructor
  · rintro ⟨p, hp, hkey, himage⟩
    obtain ⟨key, -, hrest⟩ := bind_eq_ok hp
    obtain ⟨value, hvalue, hpair⟩ := bind_eq_ok hrest
    cases hpair
    exact ⟨⟨key, hkey⟩, value, hvalue, himage⟩
  · rintro ⟨⟨s, hs⟩, value, hvalue, himage⟩
    refine ⟨(s, value), ?_, hs, himage⟩
    unfold pairOf
    rw [hs, (keyText_str_iff str).mpr rfl, hvalue]
    rfl

theorem map_keyOf {entries : List (PyValue F × PyValue F)} {pairs : List (String × JsonValue F)}
    (h : List.Forall₂ (fun e p => e.1 = keyOf p) entries pairs) :
    pairs.map keyOf = entries.map Prod.fst := by
  induction h with
  | nil => rfl
  | cons hp _ ih => rw [List.map_cons, List.map_cons, ih, hp]

theorem fst_of_pairOf {e : PyValue F × PyValue F} {p : String × JsonValue F}
    (key : ∃ s, e.1 = .str s) (h : pairOf str e = .ok p) :
    e.1 = keyOf p ∧ pyToJsonValue str e.2 = .ok p.2 := by
  obtain ⟨s, hs⟩ := key
  obtain ⟨key, hkey, hrest⟩ := bind_eq_ok h
  obtain ⟨value, hvalue, hpair⟩ := bind_eq_ok hrest
  cases hpair
  rw [hs] at hkey
  refine ⟨?_, hvalue⟩
  rw [hs, (keyText_str_iff str).mp hkey]
  rfl

/-- Distinct keys get entries of their own. -/
theorem object_perm {entries : List (PyValue F × PyValue F)} {pairs : List (String × JsonValue F)}
    (keys : ∀ e ∈ entries, ∃ s, e.1 = .str s) (distinct : (entries.map Prod.fst).Nodup)
    (h : entries.mapM (pairOf str) = .ok pairs) :
    (pairs.foldl (fun map p => insertKey p.1 p.2 map) []).Perm pairs := by
  have hall : List.Forall₂ (fun e p => e.1 = keyOf p) entries pairs :=
    ((List.forall₂_and_left ..).mpr ⟨keys, forall₂_of_mapM h⟩).imp fun _ _ hp =>
      (fst_of_pairOf str hp.1 hp.2).1
  have hkeys : (pairs.map Prod.fst).map (fun key => (.str (.ofString key) : PyValue F)) =
      entries.map Prod.fst := by
    rw [← map_keyOf hall, List.map_map]
    rfl
  refine foldl_insertKey_perm ?_
  rw [List.nil_append]
  rw [← hkeys] at distinct
  exact distinct.of_map _

/-- The pairs are those of the object, whatever their order. -/
theorem image_dict_of_perm {entries : List (PyValue F × PyValue F)}
    {pairs obj : List (String × JsonValue F)} (distinct : (entries.map Prod.fst).Nodup)
    (h : List.Forall₂ Pairs entries pairs) (hperm : obj.Perm pairs) :
    Image (.dict entries) (.object obj) := by
  have hkeys : pairs.map keyOf = entries.map Prod.fst := map_keyOf (h.imp fun _ _ hp => hp.1)
  refine .dict ((hperm.map keyOf).trans (.of_eq hkeys)) fun e he o ho heq => ?_
  obtain ⟨i, hi, rfl⟩ := List.getElem_of_mem (hperm.mem_iff.mp ho)
  have hi' : i < entries.length := h.length_eq ▸ hi
  obtain ⟨hkey, himage⟩ : Pairs entries[i] pairs[i] := h.get hi' hi
  have hsame : e = entries[i] :=
    List.inj_on_of_nodup_map distinct he (List.getElem_mem hi') (heq.trans hkey.symm)
  rwa [hsame]

theorem faithful_dict_iff {entries : List (PyValue F × PyValue F)}
    (keys : ∀ e ∈ entries, ∃ s, e.1 = .str s) (distinct : (entries.map Prod.fst).Nodup) :
    Faithful str (.dict entries) ↔ ∀ e ∈ entries, ∃ p, pairOf str e = .ok p ∧ Pairs e p := by
  unfold Faithful
  rw [pyToJsonValue_dict_eq]
  constructor
  · rintro ⟨j, hj, himage⟩
    cases hpairs : entries.mapM (pairOf str) with
    | error x =>
      rw [hpairs] at hj
      cases hj
    | ok pairs =>
      rw [hpairs] at hj
      cases hj
      cases himage with
      | dict _ hvalues =>
        intro e he
        obtain ⟨p, hp⟩ := exists_mapM_ok_iff.mp ⟨pairs, hpairs⟩ e he
        have hmem : p ∈ pairs := mem_of_mapM hpairs he hp
        have hkey := (fst_of_pairOf str (keys e he) hp).1
        exact ⟨p, hp, hkey,
          hvalues e he p ((object_perm str keys distinct hpairs).mem_iff.mpr hmem) hkey⟩
  · intro hall
    obtain ⟨pairs, hpairs, hrelated⟩ := exists_mapM_forall₂_iff.mpr hall
    refine ⟨.object _, ?_, image_dict_of_perm distinct hrelated
      (object_perm str keys distinct hpairs)⟩
    rw [hpairs]
    rfl

/-! ## Sequences -/

/-- An array, however it came about, is the form of a sequence when its items are. -/
theorem exists_array_iff {items : List (PyValue F)} :
    (∃ j, (items.mapM fun item => pyToJsonValue str item).map JsonValue.array = .ok j ∧
        ∃ arr, j = .array arr ∧ List.Forall₂ Image items arr) ↔ ∀ v ∈ items, Faithful str v := by
  refine Iff.trans ?_ exists_mapM_forall₂_iff
  constructor
  · rintro ⟨j, hj, arr, rfl, hall⟩
    refine ⟨arr, ?_, hall⟩
    cases hitems : items.mapM fun item => pyToJsonValue str item with
    | error x =>
      rw [hitems] at hj
      cases hj
    | ok arr' =>
      rw [hitems] at hj
      cases hj
      rfl
  · rintro ⟨arr, hitems, hall⟩
    refine ⟨.array arr, ?_, arr, rfl, hall⟩
    rw [hitems]
    rfl

theorem faithful_list_iff {items : List (PyValue F)} :
    Faithful str (.list items) ↔ ∀ v ∈ items, Faithful str v := by
  rw [← exists_array_iff, Faithful, pyToJsonValue_list]
  apply exists_congr
  intro j
  rw [image_list_iff]

/-- A tuple of octets becomes a string. -/
theorem faithful_tuple_iff {items : List (PyValue F)} : Faithful str (.sequence items) ↔
    (∃ v ∈ items, v.extractU8 = none) ∧ ∀ v ∈ items, Faithful str v := by
  rw [← mapM_eq_none_iff, ← exists_array_iff, Faithful, pyToJsonValue_sequence]
  cases items.mapM PyValue.extractU8 with
  | some bytes =>
    -- `extract::<Vec<u8>>` comes before the iteration, and a string is no image of a tuple
    refine iff_of_false ?_ (fun h => nomatch h.1)
    rintro ⟨j, hj, himage⟩
    cases hj
    cases himage
  | none =>
    rw [and_iff_right rfl]
    apply exists_congr
    intro j
    rw [image_tuple_iff, image_list_iff]

/-! ## Scalars -/

theorem exists_number {i : Int} (h : -2 ^ 63 ≤ i ∧ i < 2 ^ 64) :
    ∃ n : JsonNumber F, pyToJsonValue str (.int i) = .ok (.number n) ∧ n.intValue = some i := by
  rw [pyToJsonValue_int]
  unfold JsonNumber.ofI64
  by_cases hsmall : 0 ≤ i ∧ i < 2 ^ 63
  · rw [dif_pos hsmall]
    exact ⟨_, rfl, congrArg some (Int.toNat_of_nonneg hsmall.1)⟩
  · by_cases hneg : -2 ^ 63 ≤ i ∧ i < 0
    · rw [dif_neg hsmall, dif_pos hneg]
      exact ⟨_, rfl, rfl⟩
    · have hlarge : 0 ≤ i ∧ i < 2 ^ 64 := by omega
      unfold JsonNumber.ofU64
      rw [dif_neg hsmall, dif_neg hneg, dif_pos hlarge]
      exact ⟨_, rfl, congrArg some (Int.toNat_of_nonneg hlarge.1)⟩

theorem faithful_str_iff {s : PyStr} : Faithful str (.str s) ↔ ∃ t : String, s = .ofString t := by
  constructor
  · rintro ⟨j, -, himage⟩
    cases himage with
    | str t => exact ⟨t, rfl⟩
  · rintro ⟨t, rfl⟩
    exact ⟨.string t, pyToJsonValue_str str t, .str t⟩

/-! ## Values -/

/-- The conversion writes the form of a value exactly if its strings are plain and none of its
tuples can be read as bytes. -/
theorem faithful_iff {v : PyValue F} (h : Data v) : Faithful str v ↔ Clean v := by
  induction h with
  | none =>
    refine iff_of_true ⟨.null, ?_, .none⟩ .none
    rw [pyToJsonValue.eq_def]
    rfl
  | bool b =>
    refine iff_of_true ⟨.bool b, ?_, .bool b⟩ (.bool b)
    rw [pyToJsonValue.eq_def]
    rfl
  | @int i hi =>
    obtain ⟨n, hn, hvalue⟩ := exists_number (F := F) str hi
    exact iff_of_true ⟨.number n, hn, .int hvalue⟩ (.int i)
  | @float f hf =>
    refine iff_of_true ⟨.number (.float f hf), ?_, .float hf⟩ (.float f)
    have hfinite : JsonNumber.ofF64 f = some (.float f hf) := dif_pos hf
    rw [pyToJsonValue_float, hfinite]
  | str s =>
    rw [faithful_str_iff]
    constructor
    · rintro ⟨t, rfl⟩
      exact .str t
    · rintro ⟨⟩
      exact ⟨_, rfl⟩
  | @list items _ ih =>
    rw [faithful_list_iff, forall₂_congr ih]
    constructor
    · exact .list
    · rintro ⟨⟩
      assumption
  -- a tuple of small integers is read as bytes, so its width matters besides its items
  | @tuple items _ ih =>
    rw [faithful_tuple_iff, forall₂_congr ih]
    constructor
    · rintro ⟨wide, hitems⟩
      exact .tuple wide hitems
    · rintro ⟨⟩
      exact ⟨‹_›, ‹_›⟩
  | @dict entries keys distinct _ ih =>
    rw [faithful_dict_iff str keys distinct]
    simp only [exists_pair_iff]
    rw [forall₂_and, forall₂_congr ih]
    constructor
    · rintro ⟨hkeys, hvalues⟩
      exact .dict hkeys hvalues
    · rintro ⟨⟩
      exact ⟨‹_›, ‹_›⟩

end

end Hypern.Python
