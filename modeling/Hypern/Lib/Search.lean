import Mathlib.Data.List.Basic

/-! The first place where a list occurs in another. -/

namespace Hypern.Lib

variable {α : Type*}

/-- A part that does not hold the separator, up to the first separator, is determined. -/
theorem eq_of_append_eq {x : α} {a b l l' : List α} (ha : x ∉ a) (hb : x ∉ b)
    (hl : l = [] ∨ l.head? = some x) (hl' : l' = [] ∨ l'.head? = some x) (h : a ++ l = b ++ l') :
    a = b ∧ l = l' := by
  induction a generalizing b with
  | nil =>
    cases b with
    | nil => exact ⟨rfl, h⟩
    | cons c b =>
      rw [List.nil_append] at h
      subst h
      rcases hl with hl | hl
      · cases hl
      · exact absurd (List.mem_cons.mpr (.inl (Option.some.inj hl).symm)) hb
  | cons d a ih =>
    rw [List.mem_cons, not_or] at ha
    cases b with
    | nil =>
      rw [List.nil_append] at h
      subst h
      rcases hl' with hl' | hl'
      · cases hl'
      · exact absurd (Option.some.inj hl').symm ha.1
    | cons c b =>
      rw [List.mem_cons, not_or] at hb
      rw [List.cons_append, List.cons_append, List.cons.injEq] at h
      obtain ⟨rfl, h⟩ := h
      obtain ⟨rfl, rfl⟩ := ih ha.2 hb.2 h
      exact ⟨rfl, rfl⟩

/-- What stands before the end of a list that stops at `x` has no `x` in it. -/
theorem prefix_of_notMem {needle a l : List α} {x : α} (h : needle <+: a ++ x :: l)
    (hx : x ∉ needle) : needle <+: a := by
  induction a generalizing needle with
  | nil =>
    cases needle with
    | nil => exact List.prefix_refl []
    | cons y needle =>
      rw [List.nil_append, List.cons_prefix_cons] at h
      exact absurd (h.1 ▸ List.mem_cons_self) hx
  | cons y a ih =>
    cases needle with
    | nil => exact List.nil_prefix
    | cons z needle =>
      rw [List.cons_append, List.cons_prefix_cons] at h
      exact List.cons_prefix_cons.mpr ⟨h.1, ih h.2 fun hmem => hx (List.mem_cons_of_mem _ hmem)⟩

variable [DecidableEq α]

/-- The index of the first window that is `needle`. -/
def findList (needle : List α) : List α → Option Nat
  | [] => none
  | a :: l => if needle.isPrefixOf (a :: l) then some 0 else (findList needle l).map (· + 1)

variable {needle : List α}

theorem findList_at_start (hne : needle ≠ []) {l : List α} (h : needle <+: l) :
    findList needle l = some 0 := by
  cases l with
  | nil => exact absurd (List.prefix_nil.mp h) hne
  | cons a l =>
    rw [findList, if_pos (List.isPrefixOf_iff_prefix.mpr h)]

theorem findList_of_length_lt {l : List α} (h : l.length < needle.length) :
    findList needle l = none := by
  induction l with
  | nil => rfl
  | cons a l ih =>
    have hno : ¬ needle <+: a :: l := fun hstart => Nat.not_le.mpr h hstart.length_le
    rw [findList, if_neg fun hstart => hno (List.isPrefixOf_iff_prefix.mp hstart),
      ih (Nat.lt_of_succ_lt h)]
    rfl

theorem findList_cons_of_not {a : α} {l : List α} (h : ¬ needle <+: a :: l) :
    findList needle (a :: l) = (findList needle l).map (· + 1) := by
  rw [findList, if_neg fun hstart => h (List.isPrefixOf_iff_prefix.mp hstart)]

/-- A part that does not contain the needle, up to an element that is not in it. -/
theorem findList_append {part : List α} {x : α} (hx : x ∉ needle) (hpart : ¬ needle <:+: part)
    (l : List α) : findList needle (part ++ x :: l) =
      (findList needle l).map (· + (part.length + 1)) := by
  induction part with
  | nil =>
    have hno : ¬ needle <+: x :: l := fun h =>
      hpart (List.prefix_nil.mp (prefix_of_notMem (a := []) h hx) ▸ List.infix_refl [])
    rw [List.nil_append, findList_cons_of_not hno]
    rfl
  | cons a part ih =>
    have hno : ¬ needle <+: a :: (part ++ x :: l) := fun h =>
      hpart (prefix_of_notMem (a := a :: part) h hx).isInfix
    have hrest : ¬ needle <:+: part := fun h => hpart (List.infix_cons h)
    rw [List.cons_append, findList_cons_of_not hno, ih hrest, Option.map_map]
    exact Option.map_congr fun _ _ => by simp only [Function.comp, List.length_cons]; omega

/-- A part without the first element of the needle. -/
theorem findList_append_of_notMem {a : α} {part : List α} (h : a ∉ part) (l : List α) :
    findList (a :: needle) (part ++ l) = (findList (a :: needle) l).map (· + part.length) := by
  induction part with
  | nil => simp
  | cons b part ih =>
    obtain ⟨hne, hrest⟩ := List.ne_and_not_mem_of_not_mem_cons h
    have hno : ¬ a :: needle <+: b :: (part ++ l) := fun hstart =>
      hne (List.cons_prefix_cons.mp hstart).1
    rw [List.cons_append, findList_cons_of_not hno, ih hrest, Option.map_map]
    exact Option.map_congr fun _ _ => by simp only [Function.comp, List.length_cons]; omega

/-! What a search finds, and what it passed over. -/

theorem prefix_of_findList {l : List α} {i : Nat} (h : findList needle l = some i) :
    needle <+: l.drop i := by
  induction l generalizing i with
  | nil => cases h
  | cons a l ih =>
    rw [findList] at h
    split_ifs at h with hstart
    · cases h
      exact List.isPrefixOf_iff_prefix.mp hstart
    · obtain ⟨j, hj, rfl⟩ := Option.map_eq_some_iff.mp h
      exact ih hj

theorem add_length_le_of_findList {l : List α} {i : Nat} (hne : needle ≠ [])
    (h : findList needle l = some i) : i + needle.length ≤ l.length := by
  have hlength := (prefix_of_findList h).length_le
  have hpos := List.length_pos_iff.mpr hne
  rw [List.length_drop] at hlength
  omega

theorem notInfix_take_of_findList {l : List α} {i : Nat} (hne : needle ≠ [])
    (h : findList needle l = some i) : ¬ needle <:+: l.take i := by
  induction l generalizing i with
  | nil => cases h
  | cons a l ih =>
    rw [findList] at h
    split_ifs at h with hstart
    · cases h
      exact fun hnil => hne (List.infix_nil.mp hnil)
    · obtain ⟨j, hj, rfl⟩ := Option.map_eq_some_iff.mp h
      intro hinfix
      rw [List.take_succ_cons, List.infix_cons_iff] at hinfix
      rcases hinfix with hfirst | hlater
      · have hwhole := hfirst.trans (List.cons_prefix_cons.mpr ⟨rfl, List.take_prefix j l⟩)
        exact hstart (List.isPrefixOf_iff_prefix.mpr hwhole)
      · exact ih hj hlater

theorem notInfix_of_findList {l : List α} (hne : needle ≠ []) (h : findList needle l = none) :
    ¬ needle <:+: l := by
  induction l with
  | nil => exact fun hnil => hne (List.infix_nil.mp hnil)
  | cons a l ih =>
    rw [findList] at h
    split_ifs at h with hstart
    intro hinfix
    rcases List.infix_cons_iff.mp hinfix with hfirst | hlater
    · exact hstart (List.isPrefixOf_iff_prefix.mpr hfirst)
    · exact ih (Option.map_eq_none_iff.mp h) hlater

end Hypern.Lib
