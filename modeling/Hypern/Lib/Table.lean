import Mathlib.Data.List.AList

/-! Finite maps as they are looked up: what an update of one key does to every key. -/

namespace Hypern.Lib

/-- A map from keys to values, without an order that a program could rely on. -/
abbrev Table (K V : Type*) := AList fun _ : K => V

namespace Table

variable {K V : Type*} [DecidableEq K]

def modify (t : Table K V) (k : K) (f : V → V) : Table K V :=
  match t.lookup k with
  | some v => t.insert k (f v)
  | none => t

variable (t : Table K V) (k k' : K) (v : V)

theorem lookup_insert_eq :
    (AList.insert k v t).lookup k' = if k' = k then some v else t.lookup k' := by
  split_ifs with h
  · rw [h, AList.lookup_insert]
  · exact AList.lookup_insert_ne h

theorem lookup_erase_eq :
    (AList.erase k t).lookup k' = if k' = k then none else t.lookup k' := by
  split_ifs with h
  · rw [h, AList.lookup_erase]
  · exact AList.lookup_erase_ne h

/-- What is seen of the values, after one of them is written. -/
theorem map_lookup_insert {W : Type*} (view : V → W) :
    (fun k' => ((AList.insert k v t).lookup k').map view) =
      Function.update (fun k' => (t.lookup k').map view) k (some (view v)) := by
  funext k'
  rw [lookup_insert_eq]
  split_ifs with h
  · rw [h, Function.update_self]
    rfl
  · rw [Function.update_of_ne h]

theorem map_lookup_erase {W : Type*} (view : V → W) :
    (fun k' => ((AList.erase k t).lookup k').map view) =
      Function.update (fun k' => (t.lookup k').map view) k none := by
  funext k'
  rw [lookup_erase_eq]
  split_ifs with h
  · rw [h, Function.update_self]
    rfl
  · rw [Function.update_of_ne h]

theorem lookup_foldl_erase (ks : List K) (t : Table K V) (k : K) :
    (ks.foldl (fun t k => t.erase k) t).lookup k = if k ∈ ks then none else t.lookup k := by
  induction ks generalizing t with
  | nil => simp
  | cons first rest ih =>
    rw [List.foldl_cons, ih, lookup_erase_eq]
    by_cases h : k = first
    · simp [h]
    · simp [h]

theorem lookup_modify (f : V → V) :
    (t.modify k f).lookup k' = if k' = k then (t.lookup k).map f else t.lookup k' := by
  unfold modify
  cases h : t.lookup k with
  | none =>
    split_ifs with hk
    · rw [hk]
      exact h
    · rfl
  | some v => exact lookup_insert_eq t k k' (f v)

variable {t k k'}

theorem lookup_modify_isSome (f : V → V) :
    ((t.modify k f).lookup k').isSome = (t.lookup k').isSome := by
  rw [lookup_modify]
  split_ifs with h
  · rw [h, Option.isSome_map]
  · rfl

theorem mem_iff_lookup : k ∈ t ↔ ∃ v, t.lookup k = some v := by
  rw [← AList.lookup_isSome, Option.isSome_iff_exists]

/-- A map has at most one entry for a key. -/
theorem filterMap_key (t : Table K V) (k : K) :
    t.entries.filterMap (fun e => if e.1 = k then some e.2 else none) = (t.lookup k).toList := by
  have hentries : ∀ entries : List (Sigma fun _ : K => V), entries.NodupKeys →
      entries.filterMap (fun e => if e.1 = k then some e.2 else none) =
        (entries.dlookup k).toList := by
    intro entries hnodup
    induction entries with
    | nil => rfl
    | cons e entries ih =>
      obtain ⟨key, value⟩ := e
      obtain ⟨hnew, hrest⟩ := List.nodupKeys_cons.mp hnodup
      rw [List.filterMap_cons, ih hrest]
      by_cases h : key = k
      · subst h
        have hnone : entries.dlookup key = none := List.dlookup_eq_none.mpr hnew
        rw [hnone, List.dlookup_cons_eq]
        simp
      · rw [List.dlookup_cons_ne _ _ (Ne.symm h)]
        simp [h]
  exact hentries t.entries t.nodupKeys

/-! ## Lists of pairs -/

/-- The values that the pairs give for a key, in their order. -/
def valuesOf (k : K) (pairs : List (K × V)) : List V := (pairs.filter fun p => p.1 = k).map Prod.snd

theorem valuesOf_cons (k : K) (p : K × V) (pairs : List (K × V)) :
    valuesOf k (p :: pairs) = if p.1 = k then p.2 :: valuesOf k pairs else valuesOf k pairs := by
  unfold valuesOf
  rw [List.filter_cons]
  by_cases h : p.1 = k <;> simp [h]

theorem mem_valuesOf {k : K} {pairs : List (K × V)} {v : V} :
    v ∈ valuesOf k pairs ↔ (k, v) ∈ pairs := by
  simp only [valuesOf, List.mem_map, List.mem_filter, decide_eq_true_eq, Prod.exists]
  constructor
  · rintro ⟨key, value, ⟨hmem, rfl⟩, rfl⟩
    exact hmem
  · intro hmem
    exact ⟨k, v, ⟨hmem, rfl⟩, rfl⟩

/-- Of the values inserted under a key the last one stays. -/
theorem lookup_foldl_insert (pairs : List (K × V)) (t : Table K V) (k : K) :
    (pairs.foldl (fun t p => t.insert p.1 p.2) t).lookup k =
      (valuesOf k pairs).getLast?.or (t.lookup k) := by
  induction pairs generalizing t with
  | nil => rfl
  | cons p pairs ih =>
    rw [List.foldl_cons, ih, lookup_insert_eq, valuesOf_cons]
    by_cases h : p.1 = k
    · rw [if_pos h, if_pos h.symm, List.getLast?_cons]
      cases (valuesOf k pairs).getLast? <;> rfl
    · rw [if_neg h, if_neg (Ne.symm h)]

/-- A search for a key finds the first of its values. -/
theorem findSome?_key (pairs : List (K × V)) (k : K) :
    pairs.findSome? (fun p => if p.1 = k then some p.2 else none) = (valuesOf k pairs).head? := by
  induction pairs with
  | nil => rfl
  | cons p pairs ih =>
    rw [List.findSome?_cons, valuesOf_cons, ih]
    by_cases h : p.1 = k <;> simp [h]

end Table

end Hypern.Lib
