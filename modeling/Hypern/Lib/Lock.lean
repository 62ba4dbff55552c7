import Hypern.Lib.Threads

/-! A lock that at most one of several threads has. The lock is the number of the thread that has
it; some places of a thread are reached with the lock only, and some may be. -/

namespace Hypern.Lib

variable {L : Type*} {must may : L → Bool} {lock lock' : Option Nat} {ls : List L} {l l' : L}
  {i : Nat}

structure LockInv (must may : L → Bool) (lock : Option Nat) (ls : List L) : Prop where
  must : ∀ (i : Nat) l, ls[i]? = some l → must l = true → lock = some i
  may : ∀ i, lock = some i → ∃ l, ls[i]? = some l ∧ may l = true

/-- What thread `i` may do to the lock when it moves to `l'`. -/
structure LockMove (must may : L → Bool) (i : Nat) (lock lock' : Option Nat) (l' : L) : Prop where
  others : ∀ j, j ≠ i → (lock' = some j ↔ lock = some j)
  must : must l' = true → lock' = some i
  may : lock' = some i → may l' = true

theorem LockMove.keep (hmust : must l' = true → lock = some i)
    (hmay : lock = some i → may l' = true) : LockMove must may i lock lock l' :=
  ⟨fun _ _ => Iff.rfl, hmust, hmay⟩

theorem LockMove.acquire (h : lock = none) (hmay : may l' = true) :
    LockMove must may i lock (some i) l' := by
  refine ⟨fun j hj => ?_, fun _ => rfl, fun _ => hmay⟩
  rw [h]
  exact iff_of_false (fun heq => hj (Option.some.inj heq).symm) nofun

theorem LockMove.release (h : lock = some i) (hmust : must l' = false) :
    LockMove must may i lock none l' := by
  refine ⟨fun j hj => ?_, fun hl' => ?_, nofun⟩
  · rw [h]
    exact iff_of_false nofun fun heq => hj (Option.some.inj heq).symm
  · rw [hmust] at hl'
    cases hl'

theorem LockInv.move (h : LockInv must may lock ls) (hl : ls[i]? = some l)
    (hmove : LockMove must may i lock lock' l') : LockInv must may lock' (ls.set i l') := by
  refine ⟨fun j x hx hmust => ?_, fun j hj => ?_⟩
  · rcases getElem?_set_cases hx with ⟨rfl, rfl⟩ | ⟨hne, hold⟩
    · exact hmove.must hmust
    · exact (hmove.others j hne).mpr (h.must j x hold hmust)
  · by_cases hij : j = i
    · subst hij
      exact ⟨l', List.getElem?_set_self (List.getElem?_eq_some_iff.mp hl).1, hmove.may hj⟩
    · obtain ⟨x, hx, hmay⟩ := h.may j ((hmove.others j hij).mp hj)
      exact ⟨x, (List.getElem?_set_ne (Ne.symm hij)).trans hx, hmay⟩

/-- The thread that has the lock, if it is the one that moves. -/
theorem LockInv.may_of_eq (h : LockInv must may lock ls) (hl : ls[i]? = some l)
    (hlock : lock = some i) : may l = true := by
  obtain ⟨x, hx, hmay⟩ := h.may i hlock
  rw [Option.some.inj (hl.symm.trans hx)]
  exact hmay

end Hypern.Lib
