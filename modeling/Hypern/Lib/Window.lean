import Mathlib.Data.List.Nodup

/-! The last elements of a growing list, and lists that take an element in only if it is not
among the last ones. -/

namespace Hypern.Lib

variable {α : Type*}

/-- The last `n` elements, or all if there are fewer. -/
def lastOf (n : Nat) (l : List α) : List α := l.drop (l.length - n)

theorem lastOf_nil (n : Nat) : lastOf n ([] : List α) = [] := List.drop_nil

theorem length_lastOf (n : Nat) (l : List α) : (lastOf n l).length = min n l.length := by
  unfold lastOf
  rw [List.length_drop]
  omega

/-- A window is kept up to date without what has fallen out of it. -/
theorem lastOf_lastOf_append (n : Nat) (l : List α) (a : α) :
    lastOf n (lastOf n l ++ [a]) = lastOf n (l ++ [a]) := by
  have hlength := length_lastOf n l
  unfold lastOf at hlength ⊢
  rw [List.length_append, hlength, List.length_append]
  rcases Nat.lt_or_ge n l.length with hlt | hle
  · rw [← List.drop_append_of_le_length (Nat.sub_le ..), List.drop_drop]
    congr 1
    simp only [List.length_singleton]
    omega
  · rw [Nat.sub_eq_zero_of_le hle, List.drop_zero, Nat.min_eq_right hle]

variable [DecidableEq α]

/-- Takes the element in unless it is among the last `n`. -/
def takeIn (n : Nat) (l : List α) (a : α) : List α := if a ∈ lastOf n l then l else l ++ [a]

theorem nodup_lastOf_takeIn {n : Nat} {l : List α} (h : (lastOf n l).Nodup) (a : α) :
    (lastOf n (takeIn n l a)).Nodup := by
  unfold takeIn
  split_ifs with hmem
  · exact h
  · rw [← lastOf_lastOf_append]
    exact List.Nodup.sublist (List.drop_sublist ..)
      (List.nodup_append.mpr ⟨h, List.nodup_singleton a, fun b hb c hc hbc => by
        rw [List.mem_singleton.mp hc] at hbc
        exact hmem (hbc ▸ hb)⟩)

end Hypern.Lib
