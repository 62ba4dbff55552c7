import Hypern.Database.DatabaseTransaction
import Hypern.Lib.Pages

/-! The chunks of `stream_data`, and the iterator that hands them out. -/

namespace Hypern.Database

open Lib

variable {R : Type}

/-! ## The chunks -/

/-- The chunks so far are full, and the current one is not. -/
theorem streamRows_ok (chunkSize : Nat) (rows : List R) {chunks : List (List R)} {current : List R}
    (hchunks : ∀ chunk ∈ chunks, chunk.length = max chunkSize 1)
    (hcurrent : current.length < max chunkSize 1) :
    ∃ out, streamRows chunkSize (rows.map .ok) chunks current = .ok out ∧
      Paged (max chunkSize 1) (chunks.flatten ++ current ++ rows) out := by
  have hsize : 0 < max chunkSize 1 := Nat.lt_of_lt_of_le Nat.one_pos (le_max_right _ _)
  induction rows generalizing chunks current with
  | nil =>
    refine ⟨_, rfl, ?_⟩
    rw [List.append_nil]
    split_ifs with hempty
    · rw [List.isEmpty_iff.mp hempty, List.append_nil]
      exact .of_full hsize hchunks
    · exact .concat hsize hchunks (fun hnil => hempty (List.isEmpty_iff.mpr hnil)) hcurrent.le
  | cons row rows ih =>
    have hlength : (current ++ [row]).length = current.length + 1 := by simp
    rw [List.map_cons, streamRows]
    split_ifs with hfull
    · have hnext : ∀ chunk ∈ chunks ++ [current ++ [row]], chunk.length = max chunkSize 1 :=
        List.forall_mem_append.mpr ⟨hchunks, List.forall_mem_singleton.mpr (by omega)⟩
      obtain ⟨out, hout, hpaged⟩ := @ih _ [] hnext hsize
      refine ⟨out, hout, ?_⟩
      simpa using hpaged
    · have hlonger : (current ++ [row]).length < max chunkSize 1 := by omega
      obtain ⟨out, hout, hpaged⟩ := ih hchunks hlonger
      refine ⟨out, hout, ?_⟩
      simpa using hpaged

theorem streamRows_paged (chunkSize : Nat) (rows : List R) : ∃ chunks,
    streamRows chunkSize (rows.map .ok) [] [] = .ok chunks ∧ Paged (max chunkSize 1) rows chunks :=
  @streamRows_ok R chunkSize rows [] [] nofun
    (Nat.lt_of_lt_of_le Nat.one_pos (le_max_right _ _))

/-- What a call returns is what the loop makes of the rows. -/
theorem streamData_rows {W : Type} {s : DatabaseTransaction W} (hheld : s.held = true)
    (hrunning : s.server.aborted = false) (chunkSize : Nat) (rows : List (Except String R))
    (writes : List W) : (s.streamData (.ok ()) chunkSize (.done rows writes)).1 =
      .ofExcept (streamRows chunkSize rows [] []) := by
  simp [DatabaseTransaction.streamData, DatabaseTransaction.withTransaction, hheld,
    ServerTransaction.run, hrunning, bind, Except.bind]

/-! ## The iterator -/

structure RowStream (R : Type) where
  chunks : List (List R)
  currentIndex : Nat
  exhausted : Bool

namespace RowStream

def new (chunks : List (List R)) : RowStream R := ⟨chunks, 0, false⟩

/-- `__next__` -/
def next (s : RowStream R) : Option (List R) × RowStream R :=
  match s.chunks[s.currentIndex]? with
  | none => (none, { s with exhausted := true })
  | some chunk => (some chunk, { s with currentIndex := s.currentIndex + 1 })

def isExhausted (s : RowStream R) : Bool := s.exhausted

def chunkCount (s : RowStream R) : Nat := s.chunks.length

/-- So many calls of `__next__`, and the stream after them. -/
def nextCalls : Nat → RowStream R → List (Option (List R)) × RowStream R
  | 0, s => ([], s)
  | n + 1, s => (s.next.1 :: (nextCalls n s.next.2).1, (nextCalls n s.next.2).2)

/-- The `k`-th call returns the `k`-th chunk from the current one on. -/
theorem nextCalls_results (n : Nat) (s : RowStream R) :
    (nextCalls n s).1 = (List.range n).map fun k => s.chunks[s.currentIndex + k]? := by
  induction n generalizing s with
  | zero => rfl
  | succ n ih =>
    rw [nextCalls, List.range_succ_eq_map, List.map_cons, List.map_map, ih]
    cases hchunk : s.chunks[s.currentIndex]? with
    | none =>
      have hlength := List.getElem?_eq_none_iff.mp hchunk
      have hnone (k : Nat) : s.chunks[s.currentIndex + k]? = none :=
        List.getElem?_eq_none (by omega)
      simp [next, hchunk, hnone, Function.comp_def]
    | some chunk =>
      have hshift (k : Nat) : s.currentIndex + 1 + k = s.currentIndex + (k + 1) := by omega
      simp [next, hchunk, hshift, Function.comp_def]

/-- A call that returned `None` is remembered. -/
theorem exhausted_nextCalls (n : Nat) (s : RowStream R) :
    (nextCalls n s).2.isExhausted = true ↔ s.isExhausted = true ∨ none ∈ (nextCalls n s).1 := by
  induction n generalizing s with
  | zero => simp [nextCalls]
  | succ n ih =>
    rw [nextCalls, ih, List.mem_cons]
    cases hchunk : s.chunks[s.currentIndex]? with
    | none => simp [next, hchunk, isExhausted]
    | some chunk => simp [next, hchunk, isExhausted]

end RowStream

/-- As many chunks as the rows take. -/
theorem chunkCount_streamRows {chunkSize : Nat} {rows : List R} {chunks : List (List R)}
    (h : streamRows chunkSize (rows.map .ok) [] [] = .ok chunks) :
    (RowStream.new chunks).chunkCount = pageCount (max chunkSize 1) rows.length := by
  have hsize : 0 < max chunkSize 1 := Nat.lt_of_lt_of_le Nat.one_pos (le_max_right _ _)
  obtain ⟨out, hout, hpaged⟩ := streamRows_paged chunkSize rows
  rw [hout] at h
  cases h
  exact hpaged.length_eq hsize

/-- No row is lost between the server and the caller who asks for chunk after chunk. -/
theorem stream_keeps_rows (chunkSize : Nat) (rows : List R) : ∃ chunks,
    streamRows chunkSize (rows.map .ok) [] [] = .ok chunks ∧ Paged (max chunkSize 1) rows chunks ∧
    ∀ n, (RowStream.nextCalls n (.new chunks)).1 = (List.range n).map (fun k => chunks[k]?) ∧
      ((RowStream.nextCalls n (.new chunks)).2.isExhausted = true ↔
        none ∈ (RowStream.nextCalls n (.new chunks)).1) := by
  obtain ⟨chunks, hchunks, hpaged⟩ := streamRows_paged chunkSize rows
  refine ⟨chunks, hchunks, hpaged, fun n => ⟨?_, ?_⟩⟩
  · rw [RowStream.nextCalls_results]
    simp [RowStream.new]
  · rw [RowStream.exhausted_nextCalls]
    simp [RowStream.new, RowStream.isExhausted]

end Hypern.Database
