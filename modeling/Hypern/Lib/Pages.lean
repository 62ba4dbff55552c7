import Mathlib.Data.Nat.Basic
import Mathlib.Algebra.Order.Group.Nat
import Mathlib.Tactic.Ring

/-! The items `1 .. total` on pages of `n` items, and lists that are cut into such pages. -/

namespace Hypern.Lib

/-- How many pages it takes: the quotient, rounded up. -/
def pageCount (n total : Nat) : Nat := (total + n - 1) / n

/-- The items on page `p`, of pages and items counted from one. -/
def OnPage (n total p i : Nat) : Prop := (p - 1) * n + 1 ≤ i ∧ i ≤ min ((p - 1) * n + n) total

variable {n total p i : Nat}

theorem sub_one_mul_add (hp : 0 < p) (n : Nat) : (p - 1) * n + n = p * n := by
  obtain ⟨q, rfl⟩ := Nat.exists_eq_succ_of_ne_zero hp.ne'
  rw [Nat.succ_eq_add_one, Nat.add_sub_cancel]
  ring

theorem le_pageCount_iff (hn : 0 < n) (hp : 0 < p) : p ≤ pageCount n total ↔ (p - 1) * n < total := by
  rw [pageCount, Nat.le_div_iff_mul_le hn, ← sub_one_mul_add hp]
  omega

theorem pageCount_pos (hn : 0 < n) (htotal : 0 < total) : 0 < pageCount n total := by
  have hfirst := (@le_pageCount_iff n total 1 hn Nat.one_pos).mpr (by simpa using htotal)
  exact hfirst

/-- Every page up to the last one has an item. -/
theorem onPage_first (hn : 0 < n) (hp : 0 < p) (hlast : p ≤ pageCount n total) :
    (p - 1) * n + 1 ≤ min ((p - 1) * n + n) total := by
  have hstart := (le_pageCount_iff hn hp).mp hlast
  apply le_min
  · omega
  · exact hstart

/-- The page of an item is known from the item. -/
theorem eq_of_onPage (hp : 0 < p) (h : OnPage n total p i) : p = (i - 1) / n + 1 := by
  obtain ⟨hfrom, hto⟩ := h
  have hupper : i ≤ (p - 1) * n + n := hto.trans (min_le_left _ _)
  have hquotient : (i - 1) / n = p - 1 := by
    apply Nat.div_eq_of_lt_le
    · omega
    · rw [Nat.add_mul, Nat.one_mul]
      omega
  omega

/-- The pages hold all the items and nothing else. -/
theorem exists_onPage_iff (hn : 0 < n) :
    (∃ p, 0 < p ∧ p ≤ pageCount n total ∧ OnPage n total p i) ↔ 1 ≤ i ∧ i ≤ total := by
  constructor
  · rintro ⟨p, -, -, hfrom, hto⟩
    exact ⟨(Nat.le_add_left 1 _).trans hfrom, hto.trans (min_le_right _ _)⟩
  · rintro ⟨hfrom, hto⟩
    have hdiv : (i - 1) / n * n ≤ i - 1 := Nat.div_mul_le_self _ _
    have hmod : i - 1 < (i - 1) / n * n + n := Nat.lt_div_mul_add hn
    have hpos : 0 < (i - 1) / n + 1 := Nat.succ_pos _
    refine ⟨(i - 1) / n + 1, hpos, (le_pageCount_iff hn hpos).mpr ?_, ?_, le_min ?_ hto⟩
    · rw [Nat.add_sub_cancel]
      omega
    · rw [Nat.add_sub_cancel]
      omega
    · rw [Nat.add_sub_cancel]
      omega

/-- A page is the last one exactly if it holds the last item. -/
theorem lt_pageCount_iff (hn : 0 < n) (hp : 0 < p) :
    p < pageCount n total ↔ min ((p - 1) * n + n) total < total := by
  have hnext := @le_pageCount_iff _ total _ hn (Nat.succ_pos p)
  rw [Nat.succ_le_iff, Nat.succ_eq_add_one, Nat.add_sub_cancel] at hnext
  rw [hnext, sub_one_mul_add hp]
  simp

/-- The pages before the last one are full. -/
theorem last_item_of_lt (hn : 0 < n) (hp : 0 < p) (h : p < pageCount n total) :
    min ((p - 1) * n + n) total = p * n := by
  have hfull := (lt_pageCount_iff hn hp).mp h
  rw [sub_one_mul_add hp] at hfull ⊢
  omega

/-! ## Lists -/

section

variable {α : Type*} {items page : List α} {pages : List (List α)}

/-- The list in pages of `n` items, of which only the last may have fewer. -/
structure Paged (n : Nat) (items : List α) (pages : List (List α)) : Prop where
  flatten : pages.flatten = items
  nonempty : ∀ page ∈ pages, page ≠ []
  full : ∀ page ∈ pages.dropLast, page.length = n
  bounded : ∀ page ∈ pages, page.length ≤ n

theorem Paged.of_full (hn : 0 < n) (h : ∀ page ∈ pages, page.length = n) :
    Paged n pages.flatten pages where
  flatten := rfl
  nonempty page hpage hnil := by
    have hlength := h page hpage
    rw [hnil, List.length_nil] at hlength
    omega
  full page hpage := h page (List.dropLast_subset pages hpage)
  bounded page hpage := (h page hpage).le

theorem Paged.length_eq (hn : 0 < n) (h : Paged n items pages) :
    pages.length = pageCount n items.length := by
  rcases List.eq_nil_or_concat pages with rfl | ⟨before, last, rfl⟩
  · have hnone : (0 + n - 1) / n = 0 := Nat.div_eq_of_lt (by omega)
    rw [← h.flatten]
    exact hnone.symm
  · have hlast : 0 < last.length := List.length_pos_iff.mpr (h.nonempty last (by simp))
    have hle := h.bounded last (by simp)
    have hfull : (before.map List.length).sum = before.length * n := by
      have hbefore : ∀ page ∈ before, page.length = n := by
        simpa using h.full
      have hsame : before.map List.length = List.replicate before.length n :=
        List.eq_replicate_iff.mpr ⟨List.length_map _, List.forall_mem_map.mpr hbefore⟩
      rw [hsame, List.sum_replicate_nat]
    have htotal : items.length = before.length * n + last.length := by
      rw [← h.flatten, List.length_flatten]
      simp [hfull]
    rw [pageCount, htotal, List.length_concat, eq_comm]
    apply Nat.div_eq_of_lt_le
    · rw [Nat.add_mul, Nat.one_mul]
      omega
    · rw [Nat.add_mul, Nat.add_mul, Nat.one_mul]
      omega

/-- Behind full pages stands one more. -/
theorem Paged.concat (hn : 0 < n) (h : ∀ page ∈ pages, page.length = n) (hpage : page ≠ [])
    (hle : page.length ≤ n) : Paged n (pages.flatten ++ page) (pages ++ [page]) := by
  have hpages := Paged.of_full hn h
  refine ⟨by simp, ?_, by simpa using h, ?_⟩
  · exact List.forall_mem_append.mpr ⟨hpages.nonempty, List.forall_mem_singleton.mpr hpage⟩
  · exact List.forall_mem_append.mpr ⟨hpages.bounded, List.forall_mem_singleton.mpr hle⟩

end

end Hypern.Lib
