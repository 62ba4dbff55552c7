import Mathlib.Data.List.Basic
import Mathlib.Data.List.DropRight
import Mathlib.Data.List.TakeWhile

/-! Taking texts apart, on their characters. -/

namespace Hypern.Lib

def stripStart (start s : List Char) : Option (List Char) :=
  if start.isPrefixOf s then some (s.drop start.length) else none

/-- `str::split_once` -/
def splitOnce (c : Char) (s : List Char) : Option (List Char × List Char) :=
  match s.dropWhile (· ≠ c) with
  | _ :: rest => some (s.takeWhile (· ≠ c), rest)
  | [] => none

theorem splitOnce_append {c : Char} {a : List Char} (h : c ∉ a) (b : List Char) :
    splitOnce c (a ++ c :: b) = some (a, b) := by
  have hall : ∀ x ∈ a, decide (x ≠ c) = true := by
    intro x hx
    rw [decide_eq_true_eq]
    rintro rfl
    exact h hx
  unfold splitOnce
  rw [List.dropWhile_append_of_pos hall, List.takeWhile_append_of_pos hall]
  simp

theorem splitOnce_eq_some {c : Char} {s a b : List Char} :
    splitOnce c s = some (a, b) ↔ s = a ++ c :: b ∧ c ∉ a := by
  constructor
  · intro h
    unfold splitOnce at h
    cases hdrop : s.dropWhile (· ≠ c) with
    | nil =>
      rw [hdrop] at h
      cases h
    | cons x rest =>
      rw [hdrop] at h
      cases h
      have hx : x = c := by
        have hhead := List.head?_dropWhile_not (· ≠ c) s
        rw [hdrop] at hhead
        simpa using hhead
      subst hx
      refine ⟨?_, fun hmem => ?_⟩
      · rw [← hdrop, List.takeWhile_append_dropWhile]
      · have htrue := List.mem_takeWhile_imp hmem
        simp at htrue
  · rintro ⟨rfl, hnot⟩
    exact splitOnce_append hnot b

theorem splitOnce_of_notMem {c : Char} {s : List Char} (h : c ∉ s) : splitOnce c s = none := by
  have hall : ∀ x ∈ s, decide (x ≠ c) = true := by
    intro x hx
    rw [decide_eq_true_eq]
    rintro rfl
    exact h hx
  unfold splitOnce
  rw [List.dropWhile_eq_nil_iff.mpr hall]

theorem splitOnce_eq_none_iff {c : Char} {s : List Char} : splitOnce c s = none ↔ c ∉ s := by
  refine ⟨?_, splitOnce_of_notMem⟩
  intro h hmem
  obtain ⟨a, b, rfl, hnot⟩ := List.eq_append_cons_of_mem hmem
  rw [splitOnce_append hnot] at h
  cases h

/-- Where two texts around a separator give the same whole, the texts are the same or the separator
of one is inside a part of the other. -/
theorem append_cons_inj_iff {α : Type*} {c : α} {a b a' b' : List α} :
    a ++ c :: b = a' ++ c :: b' ↔ (a = a' ∧ b = b') ∨
      (∃ r, a' = a ++ c :: r ∧ b = r ++ c :: b') ∨ ∃ r, a = a' ++ c :: r ∧ b' = r ++ c :: b := by
  constructor
  · intro h
    rcases List.append_eq_append_iff.mp h with ⟨r, ha', hb⟩ | ⟨r, ha, hb⟩
    · cases r with
      | nil => simp_all
      | cons x r =>
        obtain ⟨rfl, hrest⟩ := List.cons.inj hb
        exact .inr (.inl ⟨r, ha', hrest⟩)
    · cases r with
      | nil => simp_all
      | cons x r =>
        obtain ⟨rfl, hrest⟩ := List.cons.inj hb
        exact .inr (.inr ⟨r, ha, hrest⟩)
  · rintro (⟨rfl, rfl⟩ | ⟨r, rfl, rfl⟩ | ⟨r, rfl, rfl⟩) <;> simp

theorem stripStart_append (start s : List Char) : stripStart start (start ++ s) = some s := by
  unfold stripStart
  rw [if_pos (List.isPrefixOf_iff_prefix.mpr (List.prefix_append ..)), List.drop_left]

section Trim

variable {α : Type*} {p : α → Bool} {s : List α}

theorem rdropWhile_eq_self (h : ∀ c, s.getLast? = some c → p c = false) : s.rdropWhile p = s := by
  rw [List.rdropWhile_eq_self_iff]
  intro hne
  rw [h _ (List.getLast?_eq_some_getLast hne)]
  simp

/-- What is put around a text that begins and ends otherwise is taken off again. -/
theorem trim_around (before after : List α) (hbefore : ∀ c ∈ before, p c = true) (hafter : ∀ c ∈ after, p c = true)
    (hfirst : ∀ c, s.head? = some c → p c = false) (hlast : ∀ c, s.getLast? = some c → p c = false) :
    ((before ++ s ++ after).dropWhile p).rdropWhile p = s := by
  rw [List.append_assoc, List.dropWhile_append_of_pos hbefore]
  cases s with
  | nil =>
    rw [List.nil_append, List.dropWhile_eq_nil_iff.mpr hafter]
    rfl
  | cons c s =>
    have hc : p c = false := hfirst c rfl
    have hdrop : (c :: s ++ after).dropWhile p = c :: s ++ after :=
      List.dropWhile_cons_of_neg (by simp [hc])
    rw [hdrop, List.rdropWhile, List.reverse_append, List.dropWhile_append_of_pos, ← List.rdropWhile]
    · exact rdropWhile_eq_self hlast
    · exact fun c hc => hafter c (List.mem_reverse.mp hc)

theorem trim_eq_self (hfirst : ∀ c, s.head? = some c → p c = false)
    (hlast : ∀ c, s.getLast? = some c → p c = false) : (s.dropWhile p).rdropWhile p = s := by
  simpa using trim_around [] [] (by simp) (by simp) hfirst hlast

end Trim

end Hypern.Lib
