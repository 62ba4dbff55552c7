import Hypern.Lib.Search

/-! Indexing that may fail: `none` where the program would stop because a position lies outside
the sequence or inside a character. -/

namespace Hypern.Lib

variable {α : Type*}

/-- What lies between two positions. -/
def between (data : List α) (cut : Nat × Nat) : List α := (data.drop cut.1).take (cut.2 - cut.1)

/-- `data[lo..hi]` -/
def slice (data : List α) (lo hi : Nat) : Option (List α) :=
  if lo ≤ hi ∧ hi ≤ data.length then some (between data (lo, hi)) else none

/-- `data[lo..]` -/
def sliceFrom (data : List α) (lo : Nat) : Option (List α) :=
  if lo ≤ data.length then some (data.drop lo) else none

/-- `data[..hi]` -/
def sliceTo (data : List α) (hi : Nat) : Option (List α) :=
  if hi ≤ data.length then some (data.take hi) else none

def checkedSub (m n : Nat) : Option Nat := if n ≤ m then some (m - n) else none

section Slices

variable {data : List α} {lo hi : Nat}

theorem slice_of_le (h : lo ≤ hi) (hend : hi ≤ data.length) :
    slice data lo hi = some (between data (lo, hi)) := if_pos ⟨h, hend⟩

theorem sliceFrom_of_le (h : lo ≤ data.length) : sliceFrom data lo = some (data.drop lo) := if_pos h

theorem sliceTo_of_le (h : hi ≤ data.length) : sliceTo data hi = some (data.take hi) := if_pos h

theorem checkedSub_of_le {m n : Nat} (h : n ≤ m) : checkedSub m n = some (m - n) := if_pos h

theorem between_add (data : List α) (lo n : Nat) :
    between data (lo, lo + n) = (data.drop lo).take n := by
  have hwidth : lo + n - lo = n := Nat.add_sub_cancel_left lo n
  rw [between, hwidth]

theorem between_length (data : List α) (lo : Nat) :
    between data (lo, data.length) = data.drop lo := by
  have hwidth : (data.drop lo).length = data.length - lo := List.length_drop
  rw [between, ← hwidth, List.take_length]

end Slices

/-! ## Cuts -/

/-- Cuts from a position on, one after the other, with `gap` elements or more between two. -/
structure Cuts (data : List α) (gap start : Nat) (cuts : List (Nat × Nat)) : Prop where
  inside : ∀ cut ∈ cuts, start ≤ cut.1 ∧ cut.1 ≤ cut.2 ∧ cut.2 ≤ data.length
  apart : cuts.Pairwise fun cut next => cut.2 + gap ≤ next.1

namespace Cuts

variable {data : List α} {gap start lo hi next : Nat} {cuts : List (Nat × Nat)}

theorem nil (data : List α) (gap start : Nat) : Cuts data gap start [] :=
  ⟨List.forall_mem_nil _, List.Pairwise.nil⟩

theorem cons (hstart : start ≤ lo) (hle : lo ≤ hi) (hend : hi ≤ data.length)
    (hnext : hi + gap ≤ next) (h : Cuts data gap next cuts) :
    Cuts data gap start ((lo, hi) :: cuts) := by
  have hlater : ∀ cut ∈ cuts, hi + gap ≤ cut.1 := fun cut hcut =>
    Nat.le_trans hnext (h.inside cut hcut).1
  constructor
  · intro cut hcut
    rcases List.mem_cons.mp hcut with rfl | hcut
    · exact ⟨hstart, hle, hend⟩
    · obtain ⟨-, hinside⟩ := h.inside cut hcut
      have hfar := hlater cut hcut
      exact ⟨by omega, hinside⟩
  · exact List.pairwise_cons.mpr ⟨hlater, h.apart⟩

theorem singleton (hstart : start ≤ lo) (hle : lo ≤ hi) (hend : hi ≤ data.length) :
    Cuts data gap start [(lo, hi)] := cons hstart hle hend (Nat.le_refl _) (nil data gap (hi + gap))

theorem mono (h : Cuts data gap start cuts) {earlier : Nat} (hle : earlier ≤ start) :
    Cuts data gap earlier cuts :=
  ⟨fun cut hcut => ⟨Nat.le_trans hle (h.inside cut hcut).1, (h.inside cut hcut).2⟩, h.apart⟩

end Cuts

/-! ## Text -/

/-- The number of bytes of a text. -/
def byteLength : List Char → Nat
  | [] => 0
  | c :: s => c.utf8Size + byteLength s

/-- The text before a byte and from it on. -/
def splitAtByte : List Char → Nat → Option (List Char × List Char)
  | s, 0 => some ([], s)
  | [], _ + 1 => none
  | c :: s, n + 1 =>
    if c.utf8Size ≤ n + 1 then
      (splitAtByte s (n + 1 - c.utf8Size)).map fun (before, after) => (c :: before, after)
    else none

/-- `s[n..]` -/
def textFrom (s : List Char) (n : Nat) : Option (List Char) := (splitAtByte s n).map Prod.snd

/-- `s[..n]` -/
def textTo (s : List Char) (n : Nat) : Option (List Char) := (splitAtByte s n).map Prod.fst

/-- `s.find(x)`: the byte where the character begins. -/
def findChar (x : Char) : List Char → Option Nat
  | [] => none
  | c :: s => if c = x then some 0 else (findChar x s).map (c.utf8Size + ·)

theorem byteLength_concat (s : List Char) (c : Char) :
    byteLength (s ++ [c]) = byteLength s + c.utf8Size := by
  induction s with
  | nil => exact Nat.add_comm _ _
  | cons d s ih =>
    rw [List.cons_append, byteLength, byteLength, ih, Nat.add_assoc]

theorem splitAtByte_append (a b : List Char) : splitAtByte (a ++ b) (byteLength a) = some (a, b) := by
  induction a with
  | nil =>
    rw [List.nil_append]
    cases b <;> rfl
  | cons c a ih =>
    have hpos := c.utf8Size_pos
    have hsize : byteLength (c :: a) = c.utf8Size + byteLength a := rfl
    obtain ⟨n, hn⟩ : ∃ n, byteLength (c :: a) = n + 1 := ⟨byteLength (c :: a) - 1, by omega⟩
    have hle : c.utf8Size ≤ n + 1 := by omega
    have hrest : n + 1 - c.utf8Size = byteLength a := by omega
    rw [hn, List.cons_append, splitAtByte, if_pos hle, hrest, ih]
    rfl

theorem textTo_append (a b : List Char) : textTo (a ++ b) (byteLength a) = some a := by
  rw [textTo, splitAtByte_append]
  rfl

theorem textFrom_append (a b : List Char) : textFrom (a ++ b) (byteLength a) = some b := by
  rw [textFrom, splitAtByte_append]
  rfl

theorem findChar_eq (x : Char) (s : List Char) :
    findChar x s = (findList [x] s).map fun i => byteLength (s.take i) := by
  induction s with
  | nil => rfl
  | cons c s ih =>
    rw [findChar]
    split_ifs with hc
    · subst hc
      have hstart : [c] <+: c :: s := List.prefix_append [c] s
      rw [findList_at_start (List.cons_ne_nil c []) hstart]
      rfl
    · have hno : ¬ [x] <+: c :: s := fun hstart => hc (List.cons_prefix_cons.mp hstart).1.symm
      rw [findList_cons_of_not hno, ih, Option.map_map, Option.map_map]
      rfl

end Hypern.Lib
