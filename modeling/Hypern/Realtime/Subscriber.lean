import Hypern.Lib.Ring
import Hypern.Lib.Threads

/-! The handles by which messages are read. `Subscriber` of `channel.rs` and `BroadcastSubscriber`
of `broadcast.rs` have the same body around the receiver of a broadcast channel. -/

namespace Hypern.Realtime

open Lib

/-- The receiver of a handle and its two counters. -/
structure Reader where
  next : Nat
  received : Nat
  missed : Nat
  deriving DecidableEq

namespace Reader

variable {M : Type*} (rd : Reader)

def received1 (next : Nat) : Reader := { rd with next := next, received := rd.received + 1 }

def lagged (missed next : Nat) : Reader := { rd with next := next, missed := rd.missed + missed }

def tryRecv (r : RingBuffer M) : Option M × Reader :=
  match r.tryRecv rd.next with
  | (.ok msg, next) => (some msg, rd.received1 next)
  | (.error .empty, next) => (none, { rd with next := next })
  | (.error (.lagged n), next) =>
    let rd := rd.lagged n next
    match r.tryRecv rd.next with
    | (.ok msg, next) => (some msg, rd.received1 next)
    | (.error _, next) => (none, { rd with next := next })
  | (.error .closed, next) => (none, { rd with next := next })

def drain (r : RingBuffer M) (rd : Reader) : List M × Reader :=
  match _h : r.tryRecv rd.next with
  | (.ok msg, next) =>
    let rest := drain r (rd.received1 next)
    (msg :: rest.1, rest.2)
  | (.error (.lagged n), next) => drain r (rd.lagged n next)
  | (.error _, next) => ([], { rd with next := next })
termination_by r.log.length - rd.next
decreasing_by
  · obtain ⟨hnext, hlt⟩ := RingBuffer.tryRecv_progress _h nofun nofun
    exact Nat.sub_lt_sub_left hlt hnext
  · obtain ⟨hnext, hlt⟩ := RingBuffer.tryRecv_progress _h nofun nofun
    exact Nat.sub_lt_sub_left hlt hnext

/-! ## What the two calls return -/

variable {r : RingBuffer M} {rd : Reader}

theorem tryRecv_of_le (h : r.log.length ≤ rd.next) : rd.tryRecv r = (none, rd) := by
  unfold tryRecv
  rw [RingBuffer.tryRecv_empty h]
  cases r.closed <;> rfl

/-- With a message left, the attempt after a lag finds the oldest one. -/
theorem tryRecv_of_lt (h : rd.next < r.log.length) :
    rd.tryRecv r =
      (some (r.log.get ⟨r.oldest rd.next, RingBuffer.oldest_lt h⟩),
        ⟨r.oldest rd.next + 1, rd.received + 1, rd.missed + (r.oldest rd.next - rd.next)⟩) := by
  have hpos := r.capacity_pos
  unfold tryRecv
  rcases r.tryRecv_cases rd.next with ⟨hge, -⟩ | ⟨hlag, heq⟩ | ⟨hkept, hlt, heq⟩
  · exact absurd h (Nat.not_lt.mpr hge)
  · have hretry : r.tryRecv (r.log.length - r.capacity) = _ :=
      RingBuffer.tryRecv_ok (by omega) (by omega)
    rw [heq]
    dsimp only [lagged]
    rw [hretry]
    simp only [received1, RingBuffer.oldest_of_lagged hlag, List.get_eq_getElem]
  · rw [heq]
    simp only [received1, RingBuffer.oldest_of_kept hkept, List.get_eq_getElem, Nat.sub_self, Nat.add_zero]

/-- The loop goes on to the end of the log, after at most one lag at its beginning. -/
theorem drain_eq (h : rd.next ≤ r.log.length) :
    rd.drain r =
      (r.log.drop (r.oldest rd.next),
        ⟨r.log.length, rd.received + (r.log.length - r.oldest rd.next),
          rd.missed + (r.oldest rd.next - rd.next)⟩) := by
  have hpos := r.capacity_pos
  fun_induction drain r rd with
  | case1 rd msg next heq rest ih =>
    rcases r.tryRecv_cases rd.next with ⟨-, heq'⟩ | ⟨-, heq'⟩ | ⟨hkept, hlt, heq'⟩
    · cases heq.symm.trans heq'
    · cases heq.symm.trans heq'
    · obtain ⟨hmsg, rfl⟩ := Prod.mk.inj (heq.symm.trans heq')
      cases hmsg
      have hrest : rest = (r.log.drop (rd.next + 1),
          ⟨r.log.length, rd.received + 1 + (r.log.length - (rd.next + 1)), rd.missed⟩) := by
        have hnext : r.oldest (rd.next + 1) = rd.next + 1 := RingBuffer.oldest_of_kept (by omega)
        have hdrain := ih hlt
        simp only [received1, hnext, Nat.sub_self, Nat.add_zero] at hdrain
        exact hdrain
      rw [hrest, RingBuffer.oldest_of_kept hkept, List.drop_eq_getElem_cons hlt, Nat.sub_self,
        Nat.add_zero]
      simp only [Prod.mk.injEq, Reader.mk.injEq, true_and]
      omega
  | case2 rd n next heq ih =>
    rcases r.tryRecv_cases rd.next with ⟨-, heq'⟩ | ⟨hlag, heq'⟩ | ⟨-, hlt, heq'⟩
    · have hfst := congrArg Prod.fst (heq.symm.trans heq')
      split_ifs at hfst <;> cases hfst
    · obtain ⟨hn, rfl⟩ := Prod.mk.inj (heq.symm.trans heq')
      cases hn
      have hstay : r.oldest (r.log.length - r.capacity) = r.log.length - r.capacity :=
        RingBuffer.oldest_of_kept (by omega)
      have hdrain := ih (Nat.sub_le ..)
      simp only [lagged, hstay, Nat.sub_self, Nat.add_zero] at hdrain
      rw [RingBuffer.oldest_of_lagged hlag]
      exact hdrain
    · cases heq.symm.trans heq'
  | case3 rd e next hne heq =>
    rcases r.tryRecv_cases rd.next with ⟨hge, heq'⟩ | ⟨-, heq'⟩ | ⟨-, hlt, heq'⟩
    · obtain ⟨-, rfl⟩ := Prod.mk.inj (heq.symm.trans heq')
      obtain hend : rd.next = r.log.length := Nat.le_antisymm h hge
      have hstay : r.oldest rd.next = rd.next := RingBuffer.oldest_of_kept (by omega)
      rw [hstay, hend, List.drop_length, Nat.sub_self]
      rfl
    · obtain ⟨he, -⟩ := Prod.mk.inj (heq.symm.trans heq')
      cases he
      exact absurd rfl (hne _)
    · cases heq.symm.trans heq'

end Reader

end Hypern.Realtime
