import Mathlib.Logic.Function.Basic
import Hypern.Lib.Threads

/-! Operations that work on a cell in several turns while they have its lock. In every interleaving
a cell that is not locked is as if the operations on it had been atomic, in the order in which they
ended. -/

namespace Hypern.Lib

/-- An operation of type `O` works on the cell `key`, from `enter` on. A turn, which may leave a
choice open, leads to another place or ends the operation. -/
structure Guarded (K S O L A : Type*) where
  key : O → K
  enter : O → L
  turn : O → L → A → S → S × Option L

namespace Guarded

inductive Place (O L : Type*)
  | waiting (op : O)
  | inside (op : O) (place : L)
  | ended

/-- `owner` is the thread that has the lock of a cell, and `done` the operations that ended. -/
structure Cells (K S O : Type*) where
  cell : K → S
  owner : K → Option Nat
  done : K → List O

variable {K S O L A : Type*} [DecidableEq K]

def next (G : Guarded K S O L A) (i : Nat) (g : Cells K S O) :
    Place O L → A → Option (Cells K S O × Place O L)
  | .waiting op, _ =>
    if g.owner (G.key op) = none then
      some ({ g with owner := Function.update g.owner (G.key op) (some i) }, .inside op (G.enter op))
    else none
  | .inside op l, a =>
    match G.turn op l a (g.cell (G.key op)) with
    | (s, some l') => some ({ g with cell := Function.update g.cell (G.key op) s }, .inside op l')
    | (s, none) =>
      some (⟨Function.update g.cell (G.key op) s, Function.update g.owner (G.key op) none,
        Function.update g.done (G.key op) (g.done (G.key op) ++ [op])⟩, .ended)
  | .ended, _ => none

/-- A thread that comes for an operation, or the turn of a thread. -/
inductive Action (O A : Type*)
  | call (op : O)
  | move (thread : Nat) (choice : A)

def step (G : Guarded K S O L A) (c : Config (Cells K S O) (Place O L)) :
    Action O A → Option (Config (Cells K S O) (Place O L))
  | .call op => some ⟨c.shared, c.threads ++ [.waiting op]⟩
  | .move i a => stepThread G.next c i a

def start (init : K → S) : Config (Cells K S O) (Place O L) := ⟨⟨init, fun _ => none, fun _ => []⟩, []⟩

/-- Alone with its cell an operation that began on `s` is at `l` on `s'` only as `At` says, and ends
with its effect. -/
structure Atomic (G : Guarded K S O L A) (effect : O → S → S) (At : O → S → L → S → Prop) : Prop where
  enter : ∀ op s, At op s (G.enter op) s
  goesOn : ∀ op s l s' a t l', At op s l s' → G.turn op l a s' = (t, some l') → At op s l' t
  ends : ∀ op s l s' a t, At op s l s' → G.turn op l a s' = (t, none) → t = effect op s

variable {G : Guarded K S O L A} {effect : O → S → S} {At : O → S → L → S → Prop} {init : K → S}
  {c c' : Config (Cells K S O) (Place O L)} {g g' : Cells K S O} {p p' : Place O L} {i : Nat} {a : A}

def Cells.folded (effect : O → S → S) (init : K → S) (g : Cells K S O) (k : K) : S :=
  (g.done k).foldl (fun s op => effect op s) (init k)

/-- The step of a thread. -/
inductive Move (G : Guarded K S O L A) (i : Nat) (g : Cells K S O) :
    Place O L → Cells K S O → Place O L → Prop
  | enter (op : O) (free : g.owner (G.key op) = none) :
    Move G i g (.waiting op) { g with owner := Function.update g.owner (G.key op) (some i) }
      (.inside op (G.enter op))
  | goOn (op : O) (l : L) (a : A) (s : S) (l' : L)
    (turn : G.turn op l a (g.cell (G.key op)) = (s, some l')) :
    Move G i g (.inside op l) { g with cell := Function.update g.cell (G.key op) s } (.inside op l')
  | leave (op : O) (l : L) (a : A) (s : S) (turn : G.turn op l a (g.cell (G.key op)) = (s, none)) :
    Move G i g (.inside op l)
      ⟨Function.update g.cell (G.key op) s, Function.update g.owner (G.key op) none,
        Function.update g.done (G.key op) (g.done (G.key op) ++ [op])⟩ .ended

theorem next_move (h : G.next i g p a = some (g', p')) : Move G i g p g' p' := by
  cases p with
  | waiting op =>
    simp only [next] at h
    split_ifs at h with hfree
    cases h
    exact .enter op hfree
  | inside op l =>
    simp only [next] at h
    split at h <;> rename_i s hturn <;> cases h
    · exact .goOn op l a _ _ hturn
    · exact .leave op l a _ hturn
  | ended => cases h

/-- The lock of a cell is with the thread that works on it. -/
structure Serial (G : Guarded K S O L A) (effect : O → S → S) (At : O → S → L → S → Prop)
    (init : K → S) (c : Config (Cells K S O) (Place O L)) : Prop where
  free : ∀ k, c.shared.owner k = none → c.shared.cell k = c.shared.folded effect init k
  held : ∀ (i : Nat) op l, c.threads[i]? = some (.inside op l) →
    c.shared.owner (G.key op) = some i ∧
      At op (c.shared.folded effect init (G.key op)) l (c.shared.cell (G.key op))
  owned : ∀ k i, c.shared.owner k = some i →
    ∃ op l, c.threads[i]? = some (.inside op l) ∧ G.key op = k

namespace Serial

omit [DecidableEq K] in
theorem start : Serial G effect At init (start init) :=
  ⟨fun _ _ => rfl, by simp [Guarded.start], by simp [Guarded.start]⟩

omit [DecidableEq K] in
theorem call (h : Serial G effect At init c) (op : O) :
    Serial G effect At init ⟨c.shared, c.threads ++ [.waiting op]⟩ := by
  refine ⟨h.free, fun i op' l hi => ?_, fun k i hk => ?_⟩
  · rcases getElem?_concat_cases hi with hold | ⟨-, hnew⟩
    · exact h.held i op' l hold
    · cases hnew
  · obtain ⟨op', l, hi, hkey⟩ := h.owned k i hk
    exact ⟨op', l, by rw [List.getElem?_append_left (List.getElem?_eq_some_iff.mp hi).1, hi], hkey⟩

omit [DecidableEq K] in
/-- Another thread inside works on another cell. -/
theorem key_ne (h : Serial G effect At init c) {j : Nat} {op op' : O} {l l' : L}
    (hi : c.threads[i]? = some (.inside op l)) (hj : c.threads[j]? = some (.inside op' l'))
    (hne : j ≠ i) : G.key op' ≠ G.key op := by
  intro heq
  have hlock := (h.held j op' l' hj).1
  rw [heq, (h.held i op l hi).1] at hlock
  exact hne (Option.some.inj hlock).symm

theorem enter (h : Serial G effect At init c) (hatomic : Atomic G effect At) {op : O}
    (hi : c.threads[i]? = some (.waiting op)) (hfree : c.shared.owner (G.key op) = none) :
    Serial G effect At init
      ⟨{ c.shared with owner := Function.update c.shared.owner (G.key op) (some i) },
        c.threads.set i (.inside op (G.enter op))⟩ := by
  refine ⟨fun k hk => ?_, fun j op' l hj => ?_, fun k j hk => ?_⟩
  · change Function.update c.shared.owner (G.key op) (some i) k = none at hk
    by_cases hkey : k = G.key op
    · simp [hkey] at hk
    · rw [Function.update_of_ne hkey] at hk
      exact h.free k hk
  · rcases getElem?_set_cases hj with ⟨rfl, hnew⟩ | ⟨hne, hold⟩
    · cases hnew
      refine ⟨Function.update_self .., ?_⟩
      -- the shard is free, so its cell is what the finished operations made of it
      have hcell := h.free _ hfree
      change At op (c.shared.folded effect init (G.key op)) _ (c.shared.cell (G.key op))
      rw [hcell]
      exact hatomic.enter op _
    · obtain ⟨hlock, hat⟩ := h.held j op' l hold
      refine ⟨?_, hat⟩
      change Function.update c.shared.owner (G.key op) (some i) (G.key op') = some j
      rw [Function.update_of_ne]
      · exact hlock
      · intro heq
        rw [heq, hfree] at hlock
        cases hlock
  · change Function.update c.shared.owner (G.key op) (some i) k = some j at hk
    by_cases hkey : k = G.key op
    · subst hkey
      obtain rfl : i = j := by simpa using hk
      exact ⟨op, _, List.getElem?_set_self (List.getElem?_eq_some_iff.mp hi).1, rfl⟩
    · rw [Function.update_of_ne hkey] at hk
      obtain ⟨op', l, hj, hkey'⟩ := h.owned k j hk
      refine ⟨op', l, ?_, hkey'⟩
      rw [List.getElem?_set_ne, hj]
      rintro rfl
      rw [hi] at hj
      cases hj

theorem goOn (h : Serial G effect At init c) (hatomic : Atomic G effect At) {op : O} {l l' : L} {s : S}
    (hi : c.threads[i]? = some (.inside op l))
    (hturn : G.turn op l a (c.shared.cell (G.key op)) = (s, some l')) :
    Serial G effect At init
      ⟨{ c.shared with cell := Function.update c.shared.cell (G.key op) s },
        c.threads.set i (.inside op l')⟩ := by
  obtain ⟨hlock, hat⟩ := h.held i op l hi
  refine ⟨fun k hk => ?_, fun j op' l'' hj => ?_, fun k j hk => ?_⟩
  · have hkey : k ≠ G.key op := by
      rintro rfl
      rw [hlock] at hk
      cases hk
    change Function.update c.shared.cell (G.key op) s k = _
    rw [Function.update_of_ne hkey]
    exact h.free k hk
  · rcases getElem?_set_cases hj with ⟨rfl, hnew⟩ | ⟨hne, hold⟩
    · cases hnew
      refine ⟨hlock, ?_⟩
      change At op (c.shared.folded effect init (G.key op)) _ (Function.update c.shared.cell _ s _)
      rw [Function.update_self]
      exact hatomic.goesOn op _ l _ a s _ hat hturn
    · obtain ⟨hlock', hat'⟩ := h.held j op' l'' hold
      refine ⟨hlock', ?_⟩
      change At op' (c.shared.folded effect init (G.key op')) _ (Function.update c.shared.cell _ s _)
      -- another thread is inside of another shard
      rw [Function.update_of_ne (h.key_ne hi hold hne)]
      exact hat'
  · obtain ⟨op', l'', hj, hkey⟩ := h.owned k j hk
    by_cases hij : j = i
    · subst hij
      rw [hi] at hj
      cases hj
      exact ⟨op, l', List.getElem?_set_self (List.getElem?_eq_some_iff.mp hi).1, hkey⟩
    · exact ⟨op', l'', by rw [List.getElem?_set_ne (Ne.symm hij), hj], hkey⟩

theorem leave (h : Serial G effect At init c) (hatomic : Atomic G effect At) {op : O} {l : L} {s : S}
    (hi : c.threads[i]? = some (.inside op l))
    (hturn : G.turn op l a (c.shared.cell (G.key op)) = (s, none)) :
    Serial G effect At init
      ⟨⟨Function.update c.shared.cell (G.key op) s, Function.update c.shared.owner (G.key op) none,
        Function.update c.shared.done (G.key op) (c.shared.done (G.key op) ++ [op])⟩,
        c.threads.set i .ended⟩ := by
  obtain ⟨hlock, hat⟩ := h.held i op l hi
  -- the other cells keep what was done to them
  have hother : ∀ k, k ≠ G.key op → Cells.folded effect init
      ⟨Function.update c.shared.cell (G.key op) s, Function.update c.shared.owner (G.key op) none,
        Function.update c.shared.done (G.key op) (c.shared.done (G.key op) ++ [op])⟩ k =
      c.shared.folded effect init k := by
    intro k hkey
    simp only [Cells.folded, Function.update_of_ne hkey]
  refine ⟨fun k hk => ?_, fun j op' l' hj => ?_, fun k j hk => ?_⟩
  · by_cases hkey : k = G.key op
    · subst hkey
      change Function.update c.shared.cell (G.key op) s (G.key op) = _
      simp only [Cells.folded, Function.update_self, List.foldl_append, List.foldl_cons, List.foldl_nil]
      exact hatomic.ends op _ l _ a s hat hturn
    · change Function.update c.shared.owner (G.key op) none k = none at hk
      change Function.update c.shared.cell (G.key op) s k = _
      rw [Function.update_of_ne hkey] at hk ⊢
      rw [hother k hkey]
      exact h.free k hk
  · rcases getElem?_set_cases hj with ⟨-, hnew⟩ | ⟨hne, hold⟩
    · cases hnew
    · obtain ⟨hlock', hat'⟩ := h.held j op' l' hold
      have hkey := h.key_ne hi hold hne
      change Function.update c.shared.owner (G.key op) none (G.key op') = some j ∧
        At op' _ l' (Function.update c.shared.cell (G.key op) s (G.key op'))
      rw [Function.update_of_ne hkey, Function.update_of_ne hkey, hother _ hkey]
      exact ⟨hlock', hat'⟩
  · change Function.update c.shared.owner (G.key op) none k = some j at hk
    have hkey : k ≠ G.key op := by
      rintro rfl
      simp at hk
    rw [Function.update_of_ne hkey] at hk
    obtain ⟨op', l', hj, hkey'⟩ := h.owned k j hk
    refine ⟨op', l', ?_, hkey'⟩
    rw [List.getElem?_set_ne, hj]
    rintro rfl
    rw [hi] at hj
    cases hj
    exact hkey hkey'.symm

theorem step (h : Serial G effect At init c) (hatomic : Atomic G effect At) {act : Action O A}
    (hstep : G.step c act = some c') : Serial G effect At init c' := by
  cases act with
  | call op =>
    cases hstep
    exact h.call op
  | move i a =>
    obtain ⟨p, g, p', hi, hnext, rfl⟩ := stepThread_eq_some.mp hstep
    cases next_move hnext with
    | enter op hfree => exact h.enter hatomic hi hfree
    | goOn op l a s l' hturn => exact h.goOn hatomic hi hturn
    | leave op l a s hturn => exact h.leave hatomic hi hturn

theorem of_reaches (hatomic : Atomic G effect At) (h : Reaches G.step (Guarded.start init) c) :
    Serial G effect At init c :=
  h.invariant (fun _ _ _ hs hstep => hs.step hatomic hstep) .start

end Serial

end Guarded

end Hypern.Lib
