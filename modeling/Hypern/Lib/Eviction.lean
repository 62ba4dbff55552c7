import Hypern.Lib.Table
import Mathlib.Data.List.MinMax

/-! Maps of bounded size: the loop that looks for the entry with the least score, and what is left
when that entry is removed. -/

namespace Hypern.Lib

section

variable {E M : Type*} [LinearOrder M]

/-- The first item with the least score, of those whose score is below `bound`. -/
def leastBelow (score : E → M) (bound : M) (items : List E) : Option E :=
  (items.foldl (fun (least : M × Option E) e =>
    if score e < least.1 then (score e, some e) else least) (bound, none)).2

theorem leastBelow_eq (score : E → M) (bound : M) (items : List E) :
    leastBelow score bound items = (items.argmin score).filter fun e => score e < bound := by
  -- the loop carries the score along with the item
  have hloop : items.foldl (fun (least : M × Option E) e =>
      if score e < least.1 then (score e, some e) else least) (bound, none) =
      (((items.argmin score).filter fun e => score e < bound).elim bound score,
        (items.argmin score).filter fun e => score e < bound) := by
    induction items using List.reverseRecOn with
    | nil => rfl
    | append_singleton items e ih =>
      rw [List.foldl_append, ih, List.argmin_concat, List.foldl_cons, List.foldl_nil]
      cases items.argmin score with
      | none => by_cases he : score e < bound <;> simp [Option.filter, he]
      | some least =>
        by_cases hleast : score least < bound
        · by_cases he : score e < score least
          · have hlt : score e < bound := he.trans hleast
            simp [Option.filter, hleast, he, hlt]
          · simp [Option.filter, hleast, he]
        · have hbound : bound ≤ score least := not_lt.mp hleast
          by_cases he : score e < bound
          · have hlt : score e < score least := he.trans_le hbound
            simp [Option.filter, hleast, he, hlt]
          · by_cases hlt : score e < score least <;> simp [Option.filter, hleast, he, hlt]
  rw [leastBelow, hloop]

variable {score : E → M} {bound : M} {items : List E} {e : E}

theorem mem_of_leastBelow (h : leastBelow score bound items = some e) : e ∈ items := by
  rw [leastBelow_eq, Option.filter_eq_some_iff] at h
  exact List.argmin_mem h.1

/-- No item has a lower score than the one that the loop finds. -/
theorem le_of_leastBelow (h : leastBelow score bound items = some e) :
    ∀ e' ∈ items, score e ≤ score e' := by
  rw [leastBelow_eq, Option.filter_eq_some_iff] at h
  intro e' he'
  exact List.le_of_mem_argmin he' h.1

theorem exists_leastBelow (hne : items ≠ []) (h : ∀ e ∈ items, score e < bound) :
    ∃ e, leastBelow score bound items = some e := by
  have hargmin : items.argmin score ≠ none := fun hnone => hne (List.argmin_eq_none.mp hnone)
  obtain ⟨e, he⟩ := Option.ne_none_iff_exists'.mp hargmin
  refine ⟨e, ?_⟩
  rw [leastBelow_eq, Option.filter_eq_some_iff]
  exact ⟨he, decide_eq_true (h e (List.argmin_mem he))⟩

theorem forall_leastBelow_iff {P : E → Prop} : (∀ e ∈ leastBelow score bound items, P e) ↔
    ∀ e ∈ items.argmin score, score e < bound → P e := by
  rw [leastBelow_eq]
  apply forall_congr'
  intro e
  have hfilter : e ∈ (items.argmin score).filter (fun e => decide (score e < bound)) ↔
      e ∈ items.argmin score ∧ score e < bound := by
    simp [Option.mem_def, Option.filter_eq_some_iff]
  rw [hfilter, and_imp]

end

namespace Table

variable {K V : Type*} [DecidableEq K]

def size (t : Table K V) : Nat := t.keys.length

def retain (t : Table K V) (p : K → V → Bool) : Table K V :=
  ⟨t.entries.filter fun e => p e.1 e.2, t.nodupKeys.sublist List.filter_sublist⟩

/-- The entries in the order in which a loop comes to their keys. -/
def inOrder (t : Table K V) (order : List K) : List (Sigma fun _ : K => V) :=
  order.filterMap fun k => (t.lookup k).map (Sigma.mk k)

/-- The map without the entry that has been chosen, if one has. -/
def evict (t : Table K V) (victim : Option (Sigma fun _ : K => V)) : Table K V :=
  match victim with
  | some e => t.erase e.1
  | none => t

variable {t : Table K V} {k : K} {victim : Option (Sigma fun _ : K => V)}

theorem lookup_retain (t : Table K V) (p : K → V → Bool) (k : K) :
    (t.retain p).lookup k = (t.lookup k).filter (p k) := by
  ext v
  have hmem : v ∈ (t.retain p).lookup k ↔ v ∈ t.lookup k ∧ p k v = true := by
    rw [AList.mem_lookup_iff, AList.mem_lookup_iff]
    exact List.mem_filter
  simpa [Option.filter_eq_some_iff] using hmem

omit [DecidableEq K] in
theorem size_retain_le (t : Table K V) (p : K → V → Bool) : (t.retain p).size ≤ t.size := by
  show (List.map Sigma.fst _).length ≤ (List.map Sigma.fst _).length
  rw [List.length_map, List.length_map]
  exact List.length_filter_le _ _

theorem inOrder_perm {order : List K} (h : order.Perm t.keys) :
    (t.inOrder order).Perm t.entries := by
  have hkeys : t.inOrder t.keys = t.entries := by
    have hentry : ∀ e ∈ t.entries, (t.lookup e.1).map (Sigma.mk e.1) = some e := by
      intro e he
      have hlookup : t.lookup e.1 = some e.2 := AList.mem_lookup_iff.mpr he
      rw [hlookup]
      rfl
    have hmap : t.inOrder t.keys = t.entries.filterMap fun e =>
        (t.lookup e.1).map (Sigma.mk e.1) := List.filterMap_map ..
    rw [hmap, List.filterMap_congr hentry]
    exact List.filterMap_some
  rw [← hkeys]
  exact h.filterMap _

theorem lookup_evict : (t.evict victim).lookup k =
    if ∃ e ∈ victim, e.1 = k then none else t.lookup k := by
  cases victim with
  | none => simp [evict]
  | some e =>
    show (t.erase e.1).lookup k = _
    rw [lookup_erase_eq]
    by_cases hkey : k = e.1
    · simp [hkey]
    · simp [hkey, Ne.symm hkey]

theorem size_evict_none : (t.evict none).size = t.size := rfl

theorem size_evict_some {e : Sigma fun _ : K => V} (h : e ∈ t.entries) :
    (t.evict (some e)).size + 1 = t.size := by
  have hmem : e.1 ∈ t.keys := List.mem_map_of_mem h
  show (t.erase e.1).keys.length + 1 = t.keys.length
  rw [AList.keys_erase, List.length_erase_of_mem hmem]
  have hpos := List.length_pos_of_mem hmem
  omega

theorem size_insert_le (t : Table K V) (k : K) (v : V) :
    size (AList.insert k v t) ≤ t.size + 1 := by
  show (AList.insert k v t).keys.length ≤ _
  rw [AList.keys_insert, List.length_cons]
  exact Nat.succ_le_succ List.length_erase_le

theorem size_erase_le (t : Table K V) (k : K) : size (AList.erase k t) ≤ t.size := by
  show (AList.erase k t).keys.length ≤ _
  rw [AList.keys_erase]
  exact List.length_erase_le

/-- With one entry removed all others are left exactly if it is the one that is written next. -/
theorem evict_insert_keeps_iff (hmem : ∀ e ∈ victim, e ∈ t.entries) (v : V) :
    (∀ other ≠ k, ∀ entry, t.lookup other = some entry →
        ((t.evict victim).insert k v).lookup other = some entry) ↔ ∀ e ∈ victim, e.1 = k := by
  constructor
  · intro hkeeps e he
    by_contra hne
    have hlookup := AList.mem_lookup_iff.mpr (hmem e he)
    have hkept := hkeeps e.1 hne e.2 hlookup
    rw [lookup_insert_eq, if_neg hne, lookup_evict, if_pos ⟨e, he, rfl⟩] at hkept
    cases hkept
  · intro hvictim other hother entry hlookup
    have hspared : ¬ ∃ e ∈ victim, e.1 = other := by
      rintro ⟨e, he, rfl⟩
      exact hother (hvictim e he)
    rw [lookup_insert_eq, if_neg hother, lookup_evict, if_neg hspared, hlookup]

end Table

end Hypern.Lib
