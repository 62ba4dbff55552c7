import Mathlib.Data.List.Basic
import Mathlib.Tactic.Common

/-! A broadcast channel that keeps the last messages in a ring, as its documentation describes
it: a receiver has a position, one that is further behind than the ring is long is told by how
much and moved to the oldest message that is left. -/

namespace Hypern.Lib

/-- `log` are the messages sent, by position; the ring holds the last `capacity` of them. -/
structure RingBuffer (M : Type*) where
  capacity : Nat
  capacity_pos : 0 < capacity
  log : List M
  /-- Every sender has been dropped. -/
  closed : Bool

inductive TryRecvError
  | empty
  | closed
  | lagged (missed : Nat)
  deriving DecidableEq

namespace RingBuffer

variable {M : Type*} (r : RingBuffer M)

def push (m : M) : RingBuffer M := { r with log := r.log ++ [m] }

def close : RingBuffer M := { r with closed := true }

/-- One attempt of a receiver at `next`, with the position after it. -/
def tryRecv (next : Nat) : Except TryRecvError M × Nat :=
  match r.log[next]? with
  | none => (.error (if r.closed then .closed else .empty), next)
  | some m =>
    if next + r.capacity < r.log.length then
      (.error (.lagged (r.log.length - r.capacity - next)), r.log.length - r.capacity)
    else (.ok m, next + 1)

/-- Where a receiver at `next` reads on. -/
def oldest (next : Nat) : Nat := max next (r.log.length - r.capacity)

/-- The messages that a receiver at `next` can still get. -/
def pending (next : Nat) : Nat := min (r.log.length - next) r.capacity

/-- The messages that a receiver at `next` has lost without having been told. -/
def overwritten (next : Nat) : Nat := r.log.length - next - r.capacity

variable {r} {next : Nat}

theorem tryRecv_empty (h : r.log.length ≤ next) :
    r.tryRecv next = (.error (if r.closed then .closed else .empty), next) := by
  unfold tryRecv
  rw [List.getElem?_eq_none h]

theorem tryRecv_lagged (h : next + r.capacity < r.log.length) :
    r.tryRecv next =
      (.error (.lagged (r.log.length - r.capacity - next)), r.log.length - r.capacity) := by
  have hlt : next < r.log.length := by omega
  unfold tryRecv
  rw [List.getElem?_eq_getElem hlt]
  exact if_pos h

theorem tryRecv_ok (h : r.log.length ≤ next + r.capacity) (hlt : next < r.log.length) :
    r.tryRecv next = (.ok r.log[next], next + 1) := by
  unfold tryRecv
  rw [List.getElem?_eq_getElem hlt]
  exact if_neg (Nat.not_lt.mpr h)

theorem tryRecv_cases (r : RingBuffer M) (next : Nat) :
    r.log.length ≤ next ∧
        r.tryRecv next = (.error (if r.closed then .closed else .empty), next) ∨
      next + r.capacity < r.log.length ∧ r.tryRecv next =
        (.error (.lagged (r.log.length - r.capacity - next)), r.log.length - r.capacity) ∨
      r.log.length ≤ next + r.capacity ∧ ∃ hlt : next < r.log.length,
        r.tryRecv next = (.ok r.log[next], next + 1) := by
  rcases Nat.lt_or_ge next r.log.length with hlt | hge
  · rcases Nat.lt_or_ge (next + r.capacity) r.log.length with hlag | hkept
    · exact .inr (.inl ⟨hlag, tryRecv_lagged hlag⟩)
    · exact .inr (.inr ⟨hkept, hlt, tryRecv_ok hkept hlt⟩)
  · exact .inl ⟨hge, tryRecv_empty hge⟩

/-- An attempt that gets a message, or is told of lost ones, brings the receiver on. -/
theorem tryRecv_progress {x : Except TryRecvError M} {next' : Nat}
    (h : r.tryRecv next = (x, next')) (hx : x ≠ .error .empty) (hx' : x ≠ .error .closed) :
    next < next' ∧ next < r.log.length := by
  have hpos := r.capacity_pos
  rcases r.tryRecv_cases next with ⟨-, heq⟩ | ⟨hlag, heq⟩ | ⟨-, hlt, heq⟩
  · rw [h] at heq
    split_ifs at heq
    · exact absurd (congrArg Prod.fst heq) hx'
    · exact absurd (congrArg Prod.fst heq) hx
  · obtain rfl : next' = _ := congrArg Prod.snd (h.symm.trans heq)
    omega
  · obtain rfl : next' = _ := congrArg Prod.snd (h.symm.trans heq)
    omega

theorem oldest_of_lagged (h : next + r.capacity < r.log.length) :
    r.oldest next = r.log.length - r.capacity := by
  unfold oldest
  omega

theorem oldest_of_kept (h : r.log.length ≤ next + r.capacity) : r.oldest next = next := by
  unfold oldest
  omega

theorem le_oldest : next ≤ r.oldest next := Nat.le_max_left ..

theorem oldest_lt (h : next < r.log.length) : r.oldest next < r.log.length := by
  have hpos := r.capacity_pos
  unfold oldest
  omega

theorem oldest_le (h : next ≤ r.log.length) : r.oldest next ≤ r.log.length := by
  unfold oldest
  omega

theorem pending_add_overwritten : r.pending next + r.overwritten next = r.log.length - next := by
  unfold pending overwritten
  omega

theorem pending_eq_zero_iff : r.pending next = 0 ↔ r.log.length ≤ next := by
  have hpos := r.capacity_pos
  unfold pending
  omega

end RingBuffer

end Hypern.Lib
