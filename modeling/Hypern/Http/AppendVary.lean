import Hypern.Http.Multipart
import Hypern.Http.ResponseSlot
import Hypern.Lib.Run
import Mathlib.Algebra.Order.Group.Multiset

/-! `append` and `vary` of `Response`: both read the first field of a name and write one field in
place of all. -/

namespace Hypern.Http

open Lib

variable {S : Type}

namespace ResponseSlot

def append (c : Crates) (slot : ResponseSlot S) (key value : String) : ResponseSlot S :=
  match slot.getHeader c key with
  | some existing => (slot.removeHeader c key).addHeader key (existing ++ ", " ++ value)
  | none => slot.addHeader key value

/-- `existing.to_lowercase().contains(&field.to_lowercase())` -/
def Contains (c : Crates) (existing field : String) : Prop :=
  (c.toLowercase field).toList <:+: (c.toLowercase existing).toList

instance (c : Crates) (existing field : String) : Decidable (Contains c existing field) :=
  inferInstanceAs (Decidable (_ <:+: _))

def vary (c : Crates) (slot : ResponseSlot S) (field : String) : ResponseSlot S :=
  match slot.getHeader c "Vary" with
  | some existing =>
    if Contains c existing field then slot
    else (slot.removeHeader c "Vary").addHeader "Vary" (existing ++ ", " ++ field)
  | none => slot.addHeader "Vary" field

/-! ## Members -/

/-- The members of a comma-separated list, without the blanks around them. -/
def members (value : String) : List String :=
  (value.toList.splitOn ',').map fun m => String.ofList (trimMatches (fun b => b == ' ' || b == '\t') m)

/-- The members of all fields with this name. -/
def membersOf (c : Crates) (key : String) (slot : ResponseSlot S) : List String :=
  (named c key slot.headers).flatMap members

theorem members_ne_nil (value : String) : members value ≠ [] := by
  unfold members
  rw [ne_eq, List.map_eq_nil_iff]
  exact List.splitOn_ne_nil _ _

theorem members_join (a b : String) : members (a ++ ", " ++ b) = members a ++ members b := by
  have htext : (a ++ ", " ++ b).toList = a.toList ++ ',' :: ' ' :: b.toList := by
    rw [String.toList_append, String.toList_append, List.append_assoc]
    rfl
  have hblank : ∀ pieces : List (List Char), (pieces.modifyHead (' ' :: ·)).map
      (fun m => String.ofList (trimMatches (fun b => b == ' ' || b == '\t') m)) =
        pieces.map fun m => String.ofList (trimMatches (fun b => b == ' ' || b == '\t') m) := by
    intro pieces
    cases pieces <;> rfl
  have hne : (' ' == ',') = false := by decide
  unfold members
  rw [htext, List.splitOn_append_cons_self, List.map_append, List.splitOn_cons_eq_if_modifyHead,
    if_neg (ne_true_of_eq_false hne), hblank]

/-! ## Fields of one name -/

variable {c : Crates} {slot : ResponseSlot S} {key value field : String}

theorem named_removeHeader_self : named c key (slot.removeHeader c key).headers = [] := by
  unfold named removeHeader
  rw [List.filterMap_eq_nil_iff]
  intro f hf
  have hother := of_decide_eq_true (List.mem_filter.mp hf).2
  exact if_neg hother

theorem named_append : named c key (slot.append c key value).headers =
    match named c key slot.headers with
    | [] => [value]
    | existing :: _ => [existing ++ ", " ++ value] := by
  have hfirst := slot.getHeader_eq c key
  unfold append
  cases hnamed : named c key slot.headers with
  | nil =>
    rw [hnamed, List.head?_nil] at hfirst
    simp only [hfirst, named_addHeader_self, hnamed, List.nil_append]
  | cons existing rest =>
    rw [hnamed, List.head?_cons] at hfirst
    simp only [hfirst, named_addHeader_self, named_removeHeader_self, List.nil_append]

theorem named_vary : named c "Vary" (slot.vary c field).headers =
    match named c "Vary" slot.headers with
    | [] => [field]
    | existing :: rest =>
      if Contains c existing field then existing :: rest else [existing ++ ", " ++ field] := by
  have hfirst := slot.getHeader_eq c "Vary"
  unfold vary
  cases hnamed : named c "Vary" slot.headers with
  | nil =>
    rw [hnamed, List.head?_nil] at hfirst
    simp only [hfirst, named_addHeader_self, hnamed, List.nil_append]
  | cons existing rest =>
    rw [hnamed, List.head?_cons] at hfirst
    by_cases hcontains : Contains c existing field
    · simp only [hfirst, hcontains, if_true, hnamed]
    · simp only [hfirst, hcontains, if_false, named_addHeader_self, named_removeHeader_self,
        List.nil_append]

end ResponseSlot

/-! ## Runs -/

open ResponseSlot

inductive ListCall
  | header (key value : String)
  | append (key value : String)
  | vary (field : String)

namespace ListCall

def step (c : Crates) (slot : ResponseSlot S) : ListCall → Option (ResponseSlot S)
  | .header key value => some (slot.addHeader key value)
  | .append key value => some (slot.append c key value)
  | .vary field => some (slot.vary c field)

/-- `append` adds the members of its value to those of the name. `vary` keeps the members of `Vary`
and makes those of its argument members of it, in whatever letter case. -/
def Keeps (c : Crates) (slot : ResponseSlot S) : ListCall → Prop
  | .header .. => True
  | .append key value =>
    (membersOf c key (slot.append c key value) : Multiset String) =
      membersOf c key slot + members value
  | .vary field =>
    (∀ m ∈ membersOf c "Vary" slot, m ∈ membersOf c "Vary" (slot.vary c field)) ∧
      ∀ m ∈ members field, ∃ m' ∈ membersOf c "Vary" (slot.vary c field),
        c.toLowercase m' = c.toLowercase m

/-- `append` finds at most one field. `vary` finds none, or the text of its argument in the first
one and then also all its members in some field, or not the text and then no member in another
field that is neither in the first one nor in the argument. -/
def Fits (c : Crates) (slot : ResponseSlot S) : ListCall → Prop
  | .header .. => True
  | .append key _ => (named c key slot.headers).length ≤ 1
  | .vary field =>
    match named c "Vary" slot.headers with
    | [] => True
    | existing :: rest =>
      if Contains c existing field then
        ∀ m ∈ members field, ∃ m' ∈ membersOf c "Vary" slot, c.toLowercase m' = c.toLowercase m
      else ∀ m ∈ rest.flatMap members, m ∈ members existing ∨ m ∈ members field

variable {c : Crates} {slot : ResponseSlot S}

theorem keeps_append_iff (key value : String) :
    Keeps c slot (.append key value) ↔ Fits c slot (.append key value) := by
  simp only [Keeps, Fits, membersOf, named_append]
  cases hnamed : named c key slot.headers with
  | nil => simp
  | cons existing rest =>
    simp only [List.flatMap_cons, List.flatMap_nil, List.append_nil, members_join,
      ← Multiset.coe_add]
    rw [add_left_inj, left_eq_add, Multiset.coe_eq_zero, List.flatMap_eq_nil_iff]
    constructor
    · intro hnone
      cases rest with
      | nil => exact Nat.le_refl _
      | cons v rest => exact absurd (hnone v List.mem_cons_self) (members_ne_nil v)
    · intro hlength v hv
      have hrest : rest = [] := List.length_eq_zero_iff.mp (Nat.le_zero.mp (Nat.le_of_succ_le_succ hlength))
      rw [hrest] at hv
      cases hv

theorem keeps_vary_iff (field : String) :
    Keeps c slot (.vary field) ↔ Fits c slot (.vary field) := by
  simp only [Keeps, Fits, membersOf, named_vary]
  cases hnamed : named c "Vary" slot.headers with
  | nil =>
    simp only [List.flatMap_nil, List.flatMap_cons, List.append_nil]
    exact iff_of_true ⟨nofun, fun m hm => ⟨m, hm, rfl⟩⟩ trivial
  | cons existing rest =>
    by_cases hcontains : Contains c existing field
    · simp only [hcontains, if_true]
      exact and_iff_right fun m hm => hm
    · simp only [hcontains, if_false, List.flatMap_cons, List.flatMap_nil, List.append_nil,
        members_join, List.mem_append]
      constructor
      · rintro ⟨hearlier, -⟩ m hm
        exact hearlier m (.inr hm)
      · intro hrest
        refine ⟨fun m hm => ?_, fun m hm => ⟨m, .inr hm, rfl⟩⟩
        rcases hm with hfirst | hother
        · exact .inl hfirst
        · exact hrest m hother

theorem keeps_iff_fits (call : ListCall) : Keeps c slot call ↔ Fits c slot call := by
  cases call with
  | header key value => exact Iff.rfl
  | append key value => exact keeps_append_iff key value
  | vary field => exact keeps_vary_iff field

/-- A sequence of calls loses nothing exactly if each call fits the fields that it finds. -/
theorem losesNothing_iff (c : Crates) (slot : ResponseSlot S) (calls : List ListCall) :
    Along (step c) (Keeps c) slot calls ↔ Along (step c) (Fits c) slot calls := by
  constructor
  · intro h
    exact h.mono fun slot call => (keeps_iff_fits call).mp
  · intro h
    exact h.mono fun slot call => (keeps_iff_fits call).mpr

/-- `Accept` is not a member, but its text is in `Accept-Encoding`. -/
theorem vary_misses_accept :
    ¬ ∀ (S : Type) (c : Crates) (slot : ResponseSlot S) (calls : List ListCall),
      Along (step c) (Keeps c) slot calls := by
  intro h
  have hkeeps := (h Unit asciiCase (ResponseSlot.addHeader .new "Vary" "Accept-Encoding")
    [.vary "Accept"]).1.2
  have hmember : ∃ m' ∈ ["Accept-Encoding"], asciiCase.toLowercase m' = asciiCase.toLowercase "Accept" :=
    hkeeps "Accept" (by decide +kernel)
  exact absurd hmember (by decide +kernel)

end ListCall

end Hypern.Http
