import Hypern.Routing.Lookup
import Mathlib.Data.List.TakeWhile

/-! What `get_full_path` does to the slashes of its two arguments. -/

namespace Hypern.Routing

variable {cs ds : List Char}

/-- The slashes a text starts with. -/
def leadingSlashes (cs : List Char) : Nat := (cs.takeWhile (· == '/')).length

def trailingSlashes (cs : List Char) : Nat := leadingSlashes cs.reverse

theorem leadingSlashes_append_trimStart (cs : List Char) :
    List.replicate (leadingSlashes cs) '/' ++ trimStart cs = cs := by
  have hall : ∀ c ∈ cs.takeWhile (· == '/'), c = '/' := by
    intro c hc
    have hslash := List.mem_takeWhile_imp (p := (· == '/')) hc
    exact beq_iff_eq.mp hslash
  have hslashes : cs.takeWhile (· == '/') = List.replicate (leadingSlashes cs) '/' :=
    List.eq_replicate_iff.mpr ⟨rfl, hall⟩
  rw [← hslashes]
  exact List.takeWhile_append_dropWhile

theorem trimEnd_append_trailingSlashes (cs : List Char) :
    trimEnd cs ++ List.replicate (trailingSlashes cs) '/' = cs := by
  have hreverse := congrArg List.reverse (leadingSlashes_append_trimStart cs.reverse)
  rw [List.reverse_append, List.reverse_replicate, List.reverse_reverse] at hreverse
  exact hreverse

theorem head?_trimStart (cs : List Char) : (trimStart cs).head? ≠ some '/' := by
  intro hhead
  have hnot := List.head?_dropWhile_not (· == '/') cs
  rw [trimStart] at hhead
  rw [hhead] at hnot
  simp at hnot

theorem getLast?_trimEnd (cs : List Char) : (trimEnd cs).getLast? ≠ some '/' := by
  rw [trimEnd, List.getLast?_reverse]
  exact head?_trimStart cs.reverse

theorem trimStart_replicate_append (k : Nat) (cs : List Char) :
    trimStart (List.replicate k '/' ++ cs) = trimStart cs := by
  induction k with
  | zero => rfl
  | succ k ih =>
    rw [List.replicate_succ, List.cons_append, trimStart, List.dropWhile_cons_of_pos (by simp)]
    exact ih

theorem trimStart_cons {c : Char} (hc : c ≠ '/') (cs : List Char) : trimStart (c :: cs) = c :: cs := by
  simp [trimStart, hc]

theorem leadingSlashes_replicate_append {k : Nat} {c : Char} (hc : c ≠ '/') (cs : List Char) :
    leadingSlashes (List.replicate k '/' ++ c :: cs) = k := by
  have hstop : (c :: cs).takeWhile (· == '/') = [] := by simp [hc]
  rw [leadingSlashes, List.takeWhile_append_of_pos (by simp), hstop]
  simp

/-- Behind its leading slashes a path that does not end in a slash has something. -/
theorem exists_body (hne : cs ≠ []) (hlast : cs.getLast? ≠ some '/') :
    ∃ c body, c ≠ '/' ∧ cs = List.replicate (leadingSlashes cs) '/' ++ c :: body := by
  have hcs := leadingSlashes_append_trimStart cs
  cases hbody : trimStart cs with
  | nil =>
    rw [hbody, List.append_nil] at hcs
    have hpos : leadingSlashes cs ≠ 0 := by
      intro hzero
      rw [hzero] at hcs
      exact hne hcs.symm
    obtain ⟨k, hk⟩ := Nat.exists_eq_succ_of_ne_zero hpos
    rw [← hcs, hk, List.replicate_succ', List.getLast?_concat] at hlast
    exact absurd rfl hlast
  | cons c body =>
    have hhead := head?_trimStart cs
    rw [hbody] at hhead hcs
    exact ⟨c, body, fun heq => hhead (congrArg some heq), hcs.symm⟩

theorem toList_getFullPath (base route : String) :
    (getFullPath base route).toList =
      if trimEnd base.toList = [] then '/' :: trimStart route.toList
      else if trimStart route.toList = [] then trimEnd base.toList
      else trimEnd base.toList ++ '/' :: trimStart route.toList := by
  simp only [getFullPath, String.toList_ofList, List.isEmpty_iff]

theorem parts_append_slashes (cs : List Char) (k : Nat) :
    parts (cs ++ List.replicate k '/') = parts cs := by
  induction k with
  | zero => rw [List.replicate_zero, List.append_nil]
  | succ k ih =>
    rw [List.replicate_succ', ← List.append_assoc, parts_append_slash, ih]
    exact List.append_nil _

/-- The segments are those of the base path and those of the route. -/
theorem parts_getFullPath (base route : String) :
    parts (getFullPath base route).toList = parts base.toList ++ parts route.toList := by
  have hbase : parts base.toList = parts (trimEnd base.toList) := by
    conv_lhs => rw [← trimEnd_append_trailingSlashes base.toList]
    exact parts_append_slashes _ _
  have hroute : parts route.toList = parts (trimStart route.toList) := by
    conv_lhs => rw [← leadingSlashes_append_trimStart route.toList]
    exact parts_slashes_append _ _
  have hnil : parts [] = [] := rfl
  rw [hbase, hroute, toList_getFullPath]
  split_ifs with hempty hroot
  · rw [hempty, hnil, ← List.nil_append ('/' :: _), parts_append_slash]
    rfl
  · rw [hroot, hnil, List.append_nil]
  · exact parts_append_slash _ _

end Hypern.Routing
