import Mathlib.Algebra.Order.Field.Basic
import Mathlib.Data.Nat.Cast.Order.Ring
import Mathlib.Tactic.Linarith

/-! A bucket that fills at a constant rate up to its size, and from which single tokens are
drawn. -/

namespace Hypern.Lib

structure Bucket (K : Type*) where
  tokens : K
  last : K

namespace Bucket

variable {K : Type*} [Field K] [LinearOrder K] (size rate : K)

def refill (b : Bucket K) (now : K) : K := min (b.tokens + (now - b.last) * rate) size

/-- Whether there was a token, and the bucket without it. -/
def draw (b : Bucket K) (now : K) : Bool × Bucket K :=
  if 1 ≤ b.refill size rate now then (true, ⟨b.refill size rate now - 1, now⟩)
  else (false, ⟨b.refill size rate now, now⟩)

/-- The times, of those given, at which a token was drawn. -/
def drawn : Bucket K → List K → List K
  | _, [] => []
  | b, now :: later =>
    if (b.draw size rate now).1 then now :: drawn (b.draw size rate now).2 later
    else drawn (b.draw size rate now).2 later

variable {size rate} {b : Bucket K} {now : K}

theorem draw_last (b : Bucket K) (now : K) : (b.draw size rate now).2.last = now := by
  unfold draw
  split_ifs <;> rfl

theorem mem_of_mem_drawn {u : K} {times : List K} {b : Bucket K}
    (h : u ∈ drawn size rate b times) : u ∈ times := by
  induction times generalizing b with
  | nil => exact h
  | cons now later ih =>
    rw [drawn] at h
    split_ifs at h
    · rcases List.mem_cons.mp h with rfl | h
      · exact List.mem_cons_self
      · exact List.mem_cons_of_mem _ (ih h)
    · exact List.mem_cons_of_mem _ (ih h)

theorem countP_drawn_of_none {P : K → Bool} {times : List K} (h : ∀ u ∈ times, P u = false)
    (b : Bucket K) : (drawn size rate b times).countP P = 0 :=
  List.countP_eq_zero.mpr fun u hu => by simp [h u (mem_of_mem_drawn hu)]

theorem countP_drawn_cons (P : K → Bool) (b : Bucket K) (now : K) (later : List K) :
    (drawn size rate b (now :: later)).countP P =
      (if (b.draw size rate now).1 && P now then 1 else 0) +
        (drawn size rate (b.draw size rate now).2 later).countP P := by
  rw [drawn]
  cases (b.draw size rate now).1 <;> cases hP : P now <;> simp [hP, Nat.add_comm]

theorem countP_drawn_of_before {times : List K} {t : K} (hsorted : times.Pairwise (· ≤ ·))
    (h : ∀ u ∈ times.head?, t < u) (b : Bucket K) :
    (drawn size rate b times).countP (fun u => decide (u ≤ t)) = 0 := by
  refine countP_drawn_of_none (fun u hu => decide_eq_false (not_le.mpr ?_)) b
  cases times with
  | nil => cases hu
  | cons now later =>
    have hnow := h now rfl
    rcases List.mem_cons.mp hu with rfl | hu
    · exact hnow
    · exact hnow.trans_le ((List.pairwise_cons.mp hsorted).1 u hu)

/-- A token that was drawn is missing. -/
theorem draw_balance (b : Bucket K) (now : K) :
    (if (b.draw size rate now).1 then 1 else 0) + (b.draw size rate now).2.tokens =
      b.refill size rate now := by
  unfold draw
  by_cases h : 1 ≤ b.refill size rate now
  · simp [h]
  · simp [h]

variable [IsStrictOrderedRing K]

/-- There is no less than nothing in the bucket, and no more than fits. -/
structure InRange (size : K) (b : Bucket K) : Prop where
  nonneg : 0 ≤ b.tokens
  le_size : b.tokens ≤ size

theorem InRange.draw (hsize : 0 ≤ size) (hrate : 0 ≤ rate) (h : b.InRange size)
    (hnow : b.last ≤ now) : (b.draw size rate now).2.InRange size := by
  have hrefill : 0 ≤ b.refill size rate now := by
    have hgain := mul_nonneg (sub_nonneg.mpr hnow) hrate
    exact le_min (add_nonneg h.nonneg hgain) hsize
  have hle : b.refill size rate now ≤ size := min_le_right _ _
  unfold Bucket.draw
  split_ifs with hone
  · exact ⟨sub_nonneg.mpr hone, (sub_le_self _ zero_le_one).trans hle⟩
  · exact ⟨hrefill, hle⟩

variable {times : List K} {s t : K}

theorem countP_drawn_cons_le {later : List K} (hle : now ≤ t)
    (hrest : ((drawn size rate (b.draw size rate now).2 later).countP fun u => decide (u ≤ t) : K) ≤
      (b.draw size rate now).2.tokens + (t - now) * rate) :
    ((drawn size rate b (now :: later)).countP fun u => decide (u ≤ t) : K) ≤
      b.refill size rate now + (t - now) * rate := by
  have hbalance := @draw_balance K _ _ size rate b now
  rw [countP_drawn_cons, decide_eq_true hle, Bool.and_true]
  push_cast
  linarith

/-- Up to a time no more is drawn than there was and what has come in. -/
theorem drawn_until (hsize : 0 ≤ size) (hrate : 0 ≤ rate) (hb : b.InRange size)
    (hsorted : (b.last :: times).Pairwise (· ≤ ·)) (ht : b.last ≤ t) :
    ((drawn size rate b times).countP fun u => decide (u ≤ t) : K) ≤
      b.tokens + (t - b.last) * rate := by
  have hgain := mul_nonneg (sub_nonneg.mpr ht) hrate
  induction times generalizing b with
  | nil =>
    rw [drawn, List.countP_nil, Nat.cast_zero]
    exact add_nonneg hb.nonneg hgain
  | cons now later ih =>
    obtain ⟨hlast, hlater⟩ := List.pairwise_cons.mp hsorted
    have hnow := hlast now List.mem_cons_self
    rcases lt_or_ge t now with hgt | hle
    · rw [countP_drawn_of_before hlater (by simpa using hgt), Nat.cast_zero]
      exact add_nonneg hb.nonneg hgain
    · have hgain' := mul_nonneg (sub_nonneg.mpr hle) hrate
      have hrest := ih (hb.draw hsize hrate hnow) (by rwa [draw_last]) (by rwa [draw_last])
        (by rwa [draw_last])
      have hrefill : b.refill size rate now ≤ b.tokens + (now - b.last) * rate := min_le_left _ _
      rw [draw_last] at hrest
      have hcons := countP_drawn_cons_le hle hrest
      linarith

/-- Between two times no more is drawn than fits and what has come in. -/
theorem drawn_between (hsize : 0 ≤ size) (hrate : 0 ≤ rate) (hb : b.InRange size)
    (hsorted : (b.last :: times).Pairwise (· ≤ ·)) (hst : s ≤ t) :
    ((drawn size rate b times).countP fun u => decide (s ≤ u) && decide (u ≤ t) : K) ≤
      size + (t - s) * rate := by
  have hgain := mul_nonneg (sub_nonneg.mpr hst) hrate
  induction times generalizing b with
  | nil =>
    rw [drawn, List.countP_nil, Nat.cast_zero]
    exact add_nonneg hsize hgain
  | cons now later ih =>
    obtain ⟨hlast, hlater⟩ := List.pairwise_cons.mp hsorted
    have hnow := hlast now List.mem_cons_self
    have hnext := hb.draw hsize hrate hnow
    rcases lt_or_ge now s with hlt | hge
    · have hrest := ih hnext (by rwa [draw_last])
      rw [countP_drawn_cons, decide_eq_false hlt.not_ge]
      simpa using hrest
    · -- from the first of these times on the question is only when they end
      have hsame : (drawn size rate b (now :: later)).countP
          (fun u => decide (s ≤ u) && decide (u ≤ t)) =
            (drawn size rate b (now :: later)).countP fun u => decide (u ≤ t) := by
        refine List.countP_congr fun u hu => ?_
        have hle : s ≤ u := by
          rcases List.mem_cons.mp (mem_of_mem_drawn hu) with rfl | hu
          · exact hge
          · exact hge.trans ((List.pairwise_cons.mp hlater).1 u hu)
        simp [hle]
      rw [hsame]
      rcases lt_or_ge t now with hgt | hle
      · rw [countP_drawn_of_before hlater (by simpa using hgt), Nat.cast_zero]
        exact add_nonneg hsize hgain
      · have hlast' : (b.draw size rate now).2.last ≤ t := by rwa [draw_last]
        have hrest := drawn_until hsize hrate hnext (by rwa [draw_last]) hlast'
        have hrefill : b.refill size rate now ≤ size := min_le_right _ _
        have hless := mul_le_mul_of_nonneg_right (sub_le_sub_left hge t) hrate
        rw [draw_last] at hrest
        have hcons := countP_drawn_cons_le hle hrest
        linarith

end Bucket

end Hypern.Lib
