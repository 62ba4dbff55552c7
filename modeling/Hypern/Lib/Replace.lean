import Mathlib.Data.List.Basic

/-! `String.replace` on a text that ends with the pattern and has it nowhere else. -/

namespace Hypern.Lib

open String.Slice.Pattern String.Slice.Pattern.Model

variable {s : String.Slice} {pat : String}

/-- What `replace` does with one step of the search. -/
def replaceStep (new : String) (sofar : String) : SearchStep s → String
  | .matched _ _ => sofar ++ new.toSlice
  | .rejected start stop => sofar ++ s.slice! start stop

theorem search_endPos (hpat : pat ≠ "") {steps : List (SearchStep s)} {pos : s.Pos}
    (h : IsValidSearchFrom pat pos steps) (hpos : pos = s.endPos) : steps = [] := by
  cases h with
  | endPos => rfl
  | matched hmatch _ =>
    obtain ⟨t₁, t₂, hsplit, -⟩ := ForwardStringSearcher.isLongestMatchAt_iff_splits.mp hmatch
    rw [hpos, String.Slice.splits_endPos_iff] at hsplit
    exact absurd (String.append_eq_empty_iff.mp hsplit.2).1 hpat
  | mismatched hlt _ _ =>
    rw [hpos] at hlt
    exact absurd hlt (Std.not_lt.mpr (String.Slice.Pos.le_endPos _))

/-- A part without the pattern is copied. -/
theorem replaceStep_rejected {startPos endPos : s.Pos} (hle : startPos ≤ endPos)
    {before skipped after : String} (hstart : startPos.Splits before (skipped ++ after))
    (hend : endPos.Splits (before ++ skipped) after) (new sofar : String) :
    replaceStep new sofar (.rejected startPos endPos) = sofar ++ skipped := by
  have hslice : s.slice! startPos endPos = s.slice startPos endPos hle := dif_pos hle
  obtain ⟨_, hblock⟩ := String.Slice.copy_slice_eq_iff_splits.mpr ⟨before, after, hstart, hend⟩
  change sofar ++ s.slice! startPos endPos = sofar ++ skipped
  rw [hslice, String.appendSlice_eq, hblock]

/-- The steps from a position before the one place where the pattern occurs. -/
theorem foldl_replaceStep (hpat : pat ≠ "") (hlast : ∀ t₁ t₂, s.copy = t₁ ++ (pat ++ t₂) → t₂ = "")
    (new : String) {pos : s.Pos} {steps : List (SearchStep s)} (h : IsValidSearchFrom pat pos steps)
    {before head : String} (hsplit : pos.Splits before (head ++ pat)) (sofar : String) :
    steps.foldl (replaceStep new) sofar = sofar ++ head ++ new := by
  induction h generalizing before head sofar with
  | endPos =>
    rw [String.Slice.splits_endPos_iff] at hsplit
    exact absurd (String.append_eq_empty_iff.mp hsplit.2).2 hpat
  | matched hmatch hrest _ =>
    obtain ⟨t₁, t₂, hstart, hend⟩ := ForwardStringSearcher.isLongestMatchAt_iff_splits.mp hmatch
    obtain rfl := hlast t₁ t₂ hstart.eq_append
    have hhead : head ++ pat = "" ++ pat := by
      rw [String.empty_append, hsplit.eq_right hstart, String.append_empty]
    obtain rfl := (String.append_left_inj pat).mp hhead
    rw [search_endPos hpat hrest (String.Slice.Pos.splits_empty_right_iff.mp hend).1]
    rw [String.append_empty]
    exact String.appendSlice_eq.trans (congrArg _ String.copy_toSlice)
  | @mismatched _ startPos endPos hlt hno _ ih =>
    have hcopy : s.copy = (before ++ head) ++ pat := by
      rw [hsplit.eq_append, String.append_assoc]
    have hmatch := String.Slice.Pos.splits_ofEqAppend hcopy
    have hle : startPos ≤ String.Slice.Pos.ofEqAppend hcopy :=
      (hsplit.le_iff_exists_eq_append hmatch).mpr ⟨head, rfl, rfl⟩
    have hle' : endPos ≤ String.Slice.Pos.ofEqAppend hcopy := by
      rw [← Std.not_lt]
      intro hbefore
      refine hno _ hle hbefore (ForwardStringSearcher.matchesAt_iff_splits.mpr ⟨before ++ head, "", ?_⟩)
      rw [String.append_empty]
      exact hmatch
    have hend := endPos.splits
    obtain ⟨t, ht, hrest⟩ := (hsplit.le_iff_exists_eq_append hend).mp (Std.le_of_lt hlt)
    obtain ⟨u, hu, hrest'⟩ := (hend.le_iff_exists_eq_append hmatch).mp hle'
    rw [ht, String.append_assoc, String.append_right_inj] at hu
    rw [ht, hrest'] at hend
    rw [hu, String.append_assoc] at hsplit
    rw [List.foldl_cons, replaceStep_rejected (Std.le_of_lt hlt) hsplit hend, ih hend, hu]
    simp only [String.append_assoc]

theorem replace_last {head : String} (hpat : pat ≠ "")
    (hlast : ∀ t₁ t₂, head ++ pat = t₁ ++ (pat ++ t₂) → t₂ = "") (new : String) :
    (head ++ pat).replace pat new = head ++ new := by
  have hlawful := ForwardStringSearcher.lawfulToForwardSearcherModel hpat
  have hvalid := hlawful.isValidSearchFrom_toList (head ++ pat).toSlice
  have hfold : (head ++ pat).replace pat new =
      (ToForwardSearcher.toSearcher pat (head ++ pat).toSlice).toList.foldl (replaceStep new) "" := by
    rw [Std.Iter.foldl_toList]
    unfold String.replace String.Slice.replace
    congr 1
    funext sofar step
    cases step <;> rfl
  rw [hfold, foldl_replaceStep hpat (by rwa [String.copy_toSlice]) new hvalid
    (String.Slice.splits_startPos_iff.mpr ⟨rfl, String.copy_toSlice.symm⟩), String.empty_append]

/-- It is enough that the first character of the pattern occurs once. -/
theorem replace_end {head : String} {c : Char} {rest : List Char} (hpat : pat.toList = c :: rest)
    (hhead : c ∉ head.toList) (hrest : c ∉ rest) (new : String) :
    (head ++ pat).replace pat new = head ++ new := by
  refine replace_last ?_ (fun t₁ t₂ heq => ?_) new
  · rintro rfl
    cases hpat
  · have hlist := congrArg String.toList heq
    simp only [String.toList_append, hpat, List.cons_append] at hlist
    obtain ⟨-, -, htail⟩ := (List.append_cons_inj_of_notMem hhead hrest).mp hlist
    exact String.toList_eq_nil_iff.mp (List.self_eq_append_right.mp htail)

end Hypern.Lib
