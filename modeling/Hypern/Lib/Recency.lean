import Mathlib.Data.List.Pairwise
import Mathlib.Data.List.Nodup
import Mathlib.Logic.Function.Basic

/-! A list kept in the order in which its elements were last used, least recent first. `stamp`
says when an element was last used. -/

namespace Hypern.Lib

variable {α : Type*} {stamp : α → Nat} {l : List α} {a : α} {now : Nat}

def ByRecency (stamp : α → Nat) (l : List α) : Prop := l.Pairwise fun a b => stamp a < stamp b

theorem ByRecency.nodup (h : ByRecency stamp l) : l.Nodup :=
  h.imp fun hlt heq => absurd (congrArg stamp heq) (Nat.ne_of_lt hlt)

/-- What is taken from the front was used before everything that stays. -/
theorem ByRecency.oldest {b : α} {n : Nat} (h : ByRecency stamp l) (ha : a ∈ l.take n)
    (hb : b ∈ l.drop n) : stamp a < stamp b := by
  unfold ByRecency at h
  rw [← List.take_append_drop n l, List.pairwise_append] at h
  exact h.2.2 a ha b hb

theorem ByRecency.drop (h : ByRecency stamp l) (n : Nat) : ByRecency stamp (l.drop n) :=
  List.Pairwise.sublist (List.drop_sublist n l) h

variable [DecidableEq α]

/-- A use now puts an element at the end. -/
theorem ByRecency.use (h : ByRecency stamp l) (hbefore : ∀ b ∈ l, stamp b < now) :
    ByRecency (Function.update stamp a now) (l.erase a ++ [a]) := by
  have hne : ∀ b ∈ l.erase a, b ≠ a := fun b hb => ((h.nodup.mem_erase_iff).mp hb).1
  refine List.pairwise_append.mpr ⟨?_, List.pairwise_singleton _ _, fun b hb c hc => ?_⟩
  · refine List.Pairwise.imp_of_mem (fun {b c} hb hc hlt => ?_)
      (List.Pairwise.sublist List.erase_sublist h)
    rw [Function.update_of_ne (hne b hb), Function.update_of_ne (hne c hc)]
    exact hlt
  · rw [List.mem_singleton.mp hc, Function.update_of_ne (hne b hb), Function.update_self]
    exact hbefore b (List.mem_of_mem_erase hb)

/-- A first use adds the element at the end. -/
theorem ByRecency.add (h : ByRecency stamp l) (hnew : a ∉ l) (hbefore : ∀ b ∈ l, stamp b < now) :
    ByRecency (Function.update stamp a now) (l ++ [a]) := by
  have huse := h.use (a := a) hbefore
  rwa [List.erase_of_not_mem hnew] at huse

end Hypern.Lib
