import Mathlib.Data.Finset.Max
import Mathlib.Data.List.Nodup
import Mathlib.Data.Set.Function

/-! Maps that keep the order in which their keys came. -/

namespace Hypern.Lib

section

variable {K V : Type*} [DecidableEq K]

/-- An entry with the key is replaced where it stands; a new key goes to the end. -/
def setEntry (key : K) (value : V) : List (K × V) → List (K × V)
  | [] => [(key, value)]
  | e :: entries => if e.1 = key then (key, value) :: entries else e :: setEntry key value entries

variable {key : K} {value : V} {entries : List (K × V)}

theorem keys_setEntry (key : K) (value : V) (entries : List (K × V)) :
    (setEntry key value entries).map Prod.fst =
      if key ∈ entries.map Prod.fst then entries.map Prod.fst else entries.map Prod.fst ++ [key] := by
  induction entries with
  | nil => simp [setEntry]
  | cons e entries ih =>
    unfold setEntry
    by_cases hkey : e.1 = key
    · simp [hkey]
    · simp only [hkey, if_false, List.map_cons, ih, List.mem_cons, Ne.symm hkey, false_or]
      split_ifs <;> rfl

theorem setEntry_of_notMem (h : key ∉ entries.map Prod.fst) :
    setEntry key value entries = entries ++ [(key, value)] := by
  induction entries with
  | nil => rfl
  | cons e entries ih =>
    rw [List.map_cons, List.mem_cons, not_or] at h
    rw [setEntry, if_neg (Ne.symm h.1), ih h.2]
    rfl

theorem nodup_setEntry (h : (entries.map Prod.fst).Nodup) :
    ((setEntry key value entries).map Prod.fst).Nodup := by
  rw [keys_setEntry]
  split_ifs with hkey
  · exact h
  · rw [← List.concat_eq_append]
    exact h.concat hkey

end

/-- A dictionary as Python has it. -/
structure Dict (K V : Type*) where
  entries : List (K × V)
  nodup : (entries.map Prod.fst).Nodup

namespace Dict

variable {K V : Type*}

@[ext] theorem ext {d d' : Dict K V} (h : d.entries = d'.entries) : d = d' := by
  cases d
  cases d'
  simpa using h

def empty : Dict K V := ⟨[], List.nodup_nil⟩

def keys (d : Dict K V) : List K := d.entries.map Prod.fst

variable [DecidableEq K]

def setItem (d : Dict K V) (key : K) (value : V) : Dict K V :=
  ⟨setEntry key value d.entries, nodup_setEntry d.nodup⟩

def lookup (d : Dict K V) (key : K) : Option V := d.entries.lookup key

/-- Equality of dictionaries, for which the order does not matter. -/
def Equal (d d' : Dict K V) : Prop := ∀ key, d.lookup key = d'.lookup key

variable {d : Dict K V} {key : K} {value : V}

theorem mem_keys_iff : key ∈ d.keys ↔ d.lookup key ≠ none := by
  simp [keys, lookup]

theorem Equal.mem_keys_iff {d' : Dict K V} (h : d.Equal d') : key ∈ d.keys ↔ key ∈ d'.keys := by
  rw [Dict.mem_keys_iff, Dict.mem_keys_iff, h key]

theorem mem_keys_setItem {other : K} :
    other ∈ (d.setItem key value).keys ↔ other ∈ d.keys ∨ other = key := by
  unfold keys setItem
  rw [keys_setEntry]
  split_ifs with hkey
  · constructor
    · exact .inl
    · rintro (h | rfl)
      · exact h
      · exact hkey
  · simp

/-! ## Looking up after a change -/

theorem lookup_cons_eq (e : K × V) (entries : List (K × V)) (key : K) :
    (e :: entries).lookup key = if key = e.1 then some e.2 else entries.lookup key := by
  obtain ⟨k, v⟩ := e
  rw [List.lookup_cons]
  by_cases h : key = k
  · simp [h]
  · have hne : (key == k) = false := by simpa using h
    simp [h, hne]

theorem lookup_setEntry (entries : List (K × V)) (key other : K) (value : V) :
    (setEntry key value entries).lookup other =
      if other = key then some value else entries.lookup other := by
  induction entries with
  | nil => rw [setEntry, lookup_cons_eq]
  | cons e entries ih =>
    unfold setEntry
    by_cases he : e.1 = key
    · rw [if_pos he, lookup_cons_eq, lookup_cons_eq, he]
      split_ifs <;> rfl
    · rw [if_neg he, lookup_cons_eq, lookup_cons_eq, ih]
      by_cases h : other = e.1
      · rw [if_pos h, if_neg (by rw [h]; exact he), if_pos h]
      · rw [if_neg h, if_neg h]

theorem lookup_setItem (d : Dict K V) (key other : K) (value : V) :
    (d.setItem key value).lookup other = if other = key then some value else d.lookup other :=
  lookup_setEntry d.entries key other value

def delItem (d : Dict K V) (key : K) : Dict K V :=
  ⟨d.entries.filter (·.1 ≠ key), d.nodup.sublist (List.filter_sublist.map _)⟩

theorem lookup_delItem (d : Dict K V) (key other : K) :
    (d.delItem key).lookup other = if other = key then none else d.lookup other := by
  change (d.entries.filter (·.1 ≠ key)).lookup other = if other = key then none else d.entries.lookup other
  generalize d.entries = entries
  induction entries with
  | nil => simp
  | cons e entries ih =>
    rw [List.filter_cons, lookup_cons_eq]
    by_cases he : e.1 = key
    · simp only [he, ne_eq, not_true_eq_false, decide_false, Bool.false_eq_true, if_false]
      rw [ih]
      split_ifs <;> rfl
    · simp only [he, ne_eq, not_false_eq_true, decide_true, if_true]
      rw [lookup_cons_eq, ih]
      by_cases h : other = e.1
      · rw [if_pos h, if_neg (by rw [h]; exact he), if_pos h]
      · rw [if_neg h, if_neg h]

/-- A dictionary is filled with entries of different keys as they come. -/
theorem entries_foldl_setItem {entries : List (K × V)} (h : (entries.map Prod.fst).Nodup) :
    (entries.foldl (fun d e => d.setItem e.1 e.2) empty).entries = entries := by
  have hfold : ∀ (entries : List (K × V)) (out : Dict K V), (entries.map Prod.fst).Nodup →
      (∀ k ∈ entries.map Prod.fst, k ∉ out.keys) →
      (entries.foldl (fun d e => d.setItem e.1 e.2) out).entries = out.entries ++ entries := by
    intro entries
    induction entries with
    | nil => simp
    | cons e entries ih =>
      intro out hnodup hfresh
      simp only [List.map_cons, List.nodup_cons, List.forall_mem_cons] at hnodup hfresh
      rw [List.foldl_cons, ih _ hnodup.2]
      · have hset : (out.setItem e.1 e.2).entries = out.entries ++ [e] := setEntry_of_notMem hfresh.1
        rw [hset, List.append_assoc, List.singleton_append]
      · intro k hk hmem
        rcases mem_keys_setItem.mp hmem with hmem | rfl
        · exact hfresh.2 k hk hmem
        · exact hnodup.1 hk
  exact (hfold entries empty h fun _ _ => List.not_mem_nil).trans (List.nil_append _)

/-! ## Renaming the keys -/

/-- The dictionary that is filled entry by entry, each under its new key. -/
def mapKeys (f : K → K) (d : Dict K V) : Dict K V :=
  d.entries.foldl (fun out e => out.setItem (f e.1) e.2) empty

theorem mem_keys_mapKeys (f : K → K) (d : Dict K V) :
    key ∈ (d.mapKeys f).keys ↔ ∃ k ∈ d.keys, f k = key := by
  have hfold : ∀ (entries : List (K × V)) (out : Dict K V),
      key ∈ (entries.foldl (fun out e => out.setItem (f e.1) e.2) out).keys ↔
        key ∈ out.keys ∨ ∃ k ∈ entries.map Prod.fst, f k = key := by
    intro entries
    induction entries with
    | nil => simp
    | cons e entries ih =>
      intro out
      rw [List.foldl_cons, ih, mem_keys_setItem]
      simp [or_assoc, eq_comm]
  have hempty : key ∉ (empty : Dict K V).keys := List.not_mem_nil
  exact (hfold d.entries empty).trans (or_iff_right hempty)

/-- No two keys are merged. -/
theorem entries_mapKeys {f : K → K} {d : Dict K V} (h : Set.InjOn f {k | k ∈ d.keys}) :
    (d.mapKeys f).entries = d.entries.map fun e => (f e.1, e.2) := by
  have hfold : ∀ (entries : List (K × V)) (out : Dict K V), ((entries.map Prod.fst).map f).Nodup →
      (∀ k ∈ entries.map Prod.fst, f k ∉ out.keys) →
      (entries.foldl (fun out e => out.setItem (f e.1) e.2) out).entries =
        out.entries ++ entries.map fun e => (f e.1, e.2) := by
    intro entries
    induction entries with
    | nil => simp
    | cons e entries ih =>
      intro out hnodup hfresh
      simp only [List.map_cons, List.nodup_cons, List.forall_mem_cons] at hnodup hfresh
      rw [List.foldl_cons, ih _ hnodup.2]
      · have hset : (out.setItem (f e.1) e.2).entries = out.entries ++ [(f e.1, e.2)] :=
          setEntry_of_notMem hfresh.1
        simp [hset]
      · intro k hk hmem
        rcases mem_keys_setItem.mp hmem with hmem | hsame
        · exact hfresh.2 k hk hmem
        · exact hnodup.1 (hsame ▸ List.mem_map_of_mem hk)
  have hnodup : ((d.entries.map Prod.fst).map f).Nodup := d.nodup.map_on fun k hk k' hk' => h hk hk'
  exact (hfold d.entries empty hnodup fun _ _ => List.not_mem_nil).trans (List.nil_append _)

/-- A renaming that another one undoes on every key. -/
theorem mapKeys_mapKeys {f g : K → K} {d : Dict K V} (h : ∀ k ∈ d.keys, g (f k) = k) :
    (d.mapKeys f).mapKeys g = d := by
  have hinj : Set.InjOn f {k | k ∈ d.keys} := by
    intro k hk k' hk' heq
    rw [← h k hk, heq, h k' hk']
  have hrenamed := entries_mapKeys hinj
  have hkeys : ∀ k ∈ (d.mapKeys f).keys, f (g k) = k := by
    intro k hk
    obtain ⟨k', hk', rfl⟩ := (mem_keys_mapKeys f d).mp hk
    rw [h k' hk']
  have hinj' : Set.InjOn g {k | k ∈ (d.mapKeys f).keys} := by
    intro k hk k' hk' heq
    rw [← hkeys k hk, heq, hkeys k' hk']
  apply Dict.ext
  rw [entries_mapKeys hinj', hrenamed, List.map_map]
  have hself : ∀ e ∈ d.entries, ((fun e : K × V => (g e.1, e.2)) ∘ fun e => (f e.1, e.2)) e = e := by
    intro e he
    have hkey := h e.1 (List.mem_map_of_mem he)
    simp [hkey]
  rw [List.map_congr_left hself, List.map_id']

end Dict

/-! ## Renamings that only shorten -/

/-- A function that only makes elements smaller, and covers a finite set with its own elements,
moves none of them. -/
theorem fixed_of_covers {α : Type*} [DecidableEq α] {f : α → α} {size : α → ℕ} {s : List α}
    (hsmaller : ∀ x ∈ s, f x = x ∨ size (f x) < size x) (hcovers : ∀ y ∈ s, ∃ x ∈ s, f x = y) :
    ∀ x ∈ s, f x = x := by
  by_contra hmoved
  push Not at hmoved
  obtain ⟨x, hx, hne⟩ := hmoved
  have hsome : (s.toFinset.filter fun y => f y ≠ y).Nonempty := ⟨x, by simp [hx, hne]⟩
  -- a largest of the elements that move could only come from a larger one that moves
  obtain ⟨y, hy, hlargest⟩ := Finset.exists_max_image _ size hsome
  simp only [Finset.mem_filter, List.mem_toFinset] at hy hlargest
  obtain ⟨z, hz, hzy⟩ := hcovers y hy.1
  rcases hsmaller z hz with hfixed | hlt
  · exact hy.2 (by rw [← hzy, hfixed, hfixed])
  · have hmoves : f z ≠ z := fun heq => absurd hlt (by rw [heq]; exact lt_irrefl _)
    have hle := hlargest z ⟨hz, hmoves⟩
    rw [hzy] at hlt
    exact absurd hlt (not_lt.mpr hle)

end Hypern.Lib
