import Mathlib.Data.List.Forall2
import Hypern.Lib.Run
import Mathlib.Algebra.Ring.Nat

/-! Threads over a shared state. In one step one thread moves, by one of the choices its
program leaves open; a thread that is blocked has no move. -/

namespace Hypern.Lib

structure Config (G L : Type*) where
  shared : G
  threads : List L

variable {G L A : Type*}

/-- `next i g l a` is the move of thread `i`, which is at `l`, by the choice `a`. -/
def stepThread (next : Nat → G → L → A → Option (G × L)) (c : Config G L) (i : Nat) (a : A) :
    Option (Config G L) :=
  (c.threads[i]?).bind fun l => (next i c.shared l a).map fun r => ⟨r.1, c.threads.set i r.2⟩

variable {next : Nat → G → L → A → Option (G × L)} {c c' : Config G L} {i : Nat} {a : A}

theorem stepThread_eq_some : stepThread next c i a = some c' ↔
    ∃ l g l', c.threads[i]? = some l ∧ next i c.shared l a = some (g, l') ∧
      c' = ⟨g, c.threads.set i l'⟩ := by
  unfold stepThread
  rw [Option.bind_eq_some_iff]
  constructor
  · rintro ⟨l, hl, h⟩
    obtain ⟨⟨g, l'⟩, hnext, rfl⟩ := Option.map_eq_some_iff.mp h
    exact ⟨l, g, l', hl, hnext, rfl⟩
  · rintro ⟨l, g, l', hl, hnext, rfl⟩
    exact ⟨l, hl, by rw [hnext]; rfl⟩

/-- The move of a thread between the others. -/
theorem stepThread_append (before after : List L) {g g' : G} {l l' : L}
    (h : next before.length g l a = some (g', l')) :
    stepThread next ⟨g, before ++ l :: after⟩ before.length a =
      some ⟨g', before ++ l' :: after⟩ := by
  refine stepThread_eq_some.mpr ⟨l, g', l', ?_, h, ?_⟩
  · exact List.getElem?_append_right (Nat.le_refl _) |>.trans (by rw [Nat.sub_self]; rfl)
  · change _ = Config.mk g' ((before ++ l :: after).set before.length l')
    rw [List.set_append_right _ _ (Nat.le_refl _), Nat.sub_self]
    rfl

/-- No thread has a move. -/
def Stuck (next : Nat → G → L → A → Option (G × L)) (c : Config G L) : Prop :=
  ∀ i a, stepThread next c i a = none

theorem stuck_iff : Stuck next c ↔
    ∀ i l, c.threads[i]? = some l → ∀ a, next i c.shared l a = none := by
  constructor
  · intro h i l hl a
    have hstep := h i a
    unfold stepThread at hstep
    rw [hl, Option.bind_some, Option.map_eq_none_iff] at hstep
    exact hstep
  · intro h i a
    unfold stepThread
    cases hl : c.threads[i]? with
    | none => rfl
    | some l => rw [Option.bind_some, h i l hl a, Option.map_none]

theorem Stuck.no_move {l : L} (h : Stuck next c) (hl : c.threads[i]? = some l) :
    ¬ ∃ a r, next i c.shared l a = some r := by
  rintro ⟨a, r, hnext⟩
  rw [stuck_iff.mp h i l hl a] at hnext
  cases hnext

/-- A thread that runs another program as its own. -/
theorem map_snd_eq_some {K : Type*} {o : Option (G × K)} {f : K → L} {g : G} {l : L}
    (h : (o.map fun r => (r.1, f r.2)) = some (g, l)) : ∃ k, o = some (g, k) ∧ l = f k := by
  obtain ⟨⟨g', k⟩, ho, heq⟩ := Option.map_eq_some_iff.mp h
  cases heq
  exact ⟨k, ho, rfl⟩

/-! ## Counting threads -/

section Count

variable {ls : List L} {l l' : L}

theorem countP_set_add (p : L → Bool) (h : ls[i]? = some l) (l' : L) :
    (ls.set i l').countP p + (if p l then 1 else 0) = ls.countP p + if p l' then 1 else 0 := by
  obtain ⟨hi, rfl⟩ := List.getElem?_eq_some_iff.mp h
  have hpos : (if p ls[i] then 1 else 0) ≤ ls.countP p := by
    split_ifs with hp
    · exact List.countP_pos_iff.mpr ⟨ls[i], List.getElem_mem hi, hp⟩
    · exact Nat.zero_le _
  rw [List.countP_set hi]
  omega

theorem countP_set_of_eq (p : L → Bool) (h : ls[i]? = some l) (heq : p l' = p l) :
    (ls.set i l').countP p = ls.countP p := by
  have hadd := countP_set_add p h l'
  rw [heq] at hadd
  exact Nat.add_right_cancel hadd

theorem countP_pos_of_getElem? (p : L → Bool) (h : ls[i]? = some l) (hp : p l = true) :
    0 < ls.countP p :=
  List.countP_pos_iff.mpr ⟨l, List.mem_of_getElem? h, hp⟩

theorem two_le_countP {j : Nat} (p : L → Bool) (hi : ls[i]? = some l) (hj : ls[j]? = some l')
    (hne : i ≠ j) (hl : p l = true) (hl' : p l' = true) : 2 ≤ ls.countP p := by
  induction ls generalizing i j with
  | nil => cases hi
  | cons x ls ih =>
    rw [List.countP_cons]
    cases i with
    | zero =>
      cases j with
      | zero => exact absurd rfl hne
      | succ j =>
        obtain rfl : x = l := Option.some.inj hi
        have hrest : 0 < ls.countP p := countP_pos_of_getElem? p hj hl'
        rw [if_pos hl]
        omega
    | succ i =>
      cases j with
      | zero =>
        obtain rfl : x = l' := Option.some.inj hj
        have hrest : 0 < ls.countP p := countP_pos_of_getElem? p hi hl
        rw [if_pos hl']
        omega
      | succ j =>
        have hrest := ih hi hj fun heq => hne (congrArg _ heq)
        omega

theorem sum_map_set_add (f : L → Nat) (h : ls[i]? = some l) (l' : L) :
    ((ls.set i l').map f).sum + f l = (ls.map f).sum + f l' := by
  induction ls generalizing i with
  | nil => cases h
  | cons x ls ih =>
    cases i with
    | zero =>
      obtain rfl : x = l := Option.some.inj h
      simp only [List.set_cons_zero, List.map_cons, List.sum_cons]
      omega
    | succ i =>
      have hrest : ((ls.set i l').map f).sum + f l = (ls.map f).sum + f l' := ih h
      simp only [List.set_cons_succ, List.map_cons, List.sum_cons]
      omega

/-- What the threads weigh together. -/
def weight (f : L → Nat) : List L → Nat
  | [] => 0
  | l :: ls => f l + weight f ls

theorem weight_set_add (f : L → Nat) (h : ls[i]? = some l) (l' : L) :
    weight f (ls.set i l') + f l = weight f ls + f l' := by
  induction ls generalizing i with
  | nil => cases h
  | cons x ls ih =>
    cases i with
    | zero =>
      obtain rfl : x = l := Option.some.inj h
      simp only [List.set_cons_zero, weight]
      omega
    | succ i =>
      have hrest := ih h
      simp only [List.set_cons_succ, weight]
      omega

/-- After a move every thread is where it was, except the one that moved. -/
theorem forall_mem_set {P : L → Prop} (h : ∀ x ∈ ls, P x) (hl' : P l') : ∀ x ∈ ls.set i l', P x := by
  intro x hx
  rcases List.mem_or_eq_of_mem_set hx with hmem | rfl
  · exact h x hmem
  · exact hl'

theorem forall_mem_concat {P : L → Prop} (h : ∀ x ∈ ls, P x) (hl : P l) :
    ∀ x ∈ ls ++ [l], P x := by
  intro x hx
  rcases List.mem_append.mp hx with hmem | hnew
  · exact h x hmem
  · rw [List.mem_singleton.mp hnew]
    exact hl

theorem getElem?_concat_cases {j : Nat} {x : L} (h : (ls ++ [l])[j]? = some x) :
    ls[j]? = some x ∨ j = ls.length ∧ x = l := by
  rcases Nat.lt_or_ge j ls.length with hlt | hge
  · rw [List.getElem?_append_left hlt] at h
    exact .inl h
  · have hj : j = ls.length := by
      have hlen := (List.getElem?_eq_some_iff.mp h).1
      rw [List.length_append] at hlen
      exact Nat.le_antisymm (Nat.lt_succ_iff.mp hlen) hge
    rw [hj, List.getElem?_concat_length] at h
    exact .inr ⟨hj, (Option.some.inj h).symm⟩

theorem getElem?_set_cases {j : Nat} {x : L} (h : (ls.set i l')[j]? = some x) :
    j = i ∧ x = l' ∨ j ≠ i ∧ ls[j]? = some x := by
  by_cases hij : j = i
  · subst hij
    refine .inl ⟨rfl, ?_⟩
    have hlt : j < ls.length := by
      have hj := (List.getElem?_eq_some_iff.mp h).1
      rwa [List.length_set] at hj
    rw [List.getElem?_set_self hlt] at h
    exact (Option.some.inj h).symm
  · rw [List.getElem?_set_ne (Ne.symm hij)] at h
    exact .inr ⟨hij, h⟩

theorem forall_getElem?_set {P : Nat → L → Prop} (h : ∀ (j : Nat) x, ls[j]? = some x → P j x)
    (hl' : P i l') : ∀ (j : Nat) x, (ls.set i l')[j]? = some x → P j x := by
  intro j x hx
  rcases getElem?_set_cases hx with ⟨rfl, rfl⟩ | ⟨-, hold⟩
  · exact hl'
  · exact h j x hold

theorem mem_set_iff_of_ne {x : L} (h : ls[i]? = some l) (hl : x ≠ l) (hl' : x ≠ l') :
    x ∈ ls.set i l' ↔ x ∈ ls := by
  constructor
  · intro hx
    exact (List.mem_or_eq_of_mem_set hx).resolve_right hl'
  · intro hx
    obtain ⟨j, hj⟩ := List.mem_iff_getElem?.mp hx
    refine List.mem_iff_getElem?.mpr ⟨j, ?_⟩
    rw [List.getElem?_set_ne, hj]
    rintro rfl
    exact hl (Option.some.inj (hj.symm.trans h))

theorem eq_or_mem_set {x : L} (h : ls[i]? = some l) (hx : x ∈ ls) (l' : L) :
    x = l ∨ x ∈ ls.set i l' := by
  obtain ⟨j, hj⟩ := List.mem_iff_getElem?.mp hx
  by_cases hij : i = j
  · subst hij
    exact .inl (Option.some.inj (hj.symm.trans h))
  · refine .inr (List.mem_iff_getElem?.mpr ⟨j, ?_⟩)
    rw [List.getElem?_set_ne hij, hj]

/-- What some thread has is still there after a move of a thread that does not have it. -/
theorem exists_mem_set {P : L → Prop} (h : ls[i]? = some l) (hl : ¬ P l) (l' : L)
    (hex : ∃ x ∈ ls, P x) : ∃ x ∈ ls.set i l', P x := by
  obtain ⟨x, hx, hP⟩ := hex
  rcases eq_or_mem_set h hx l' with rfl | hx'
  · exact absurd hP hl
  · exact ⟨x, hx', hP⟩

end Count

/-! ## Several components at once -/

section Pointwise

variable {ls ls' ls'' : List L} {R : L → L → Prop}

theorem forall₂_modify {f : L → L} (hrefl : ∀ l, R l l) (hf : ∀ l, ls[i]? = some l → R l (f l)) :
    List.Forall₂ R ls (ls.modify i f) := by
  induction ls generalizing i with
  | nil =>
    rw [List.modify_nil]
    exact .nil
  | cons l ls ih =>
    cases i with
    | zero => exact .cons (hf l rfl) (List.forall₂_same.mpr fun x _ => hrefl x)
    | succ i => exact .cons (hrefl l) (ih hf)

theorem forall₂_trans (htrans : ∀ {a b c}, R a b → R b c → R a c) (h : List.Forall₂ R ls ls')
    (h' : List.Forall₂ R ls' ls'') : List.Forall₂ R ls ls'' := by
  induction h generalizing ls'' with
  | nil => exact h'
  | cons hab _ ih =>
    cases h' with
    | cons hbc hrest => exact .cons (htrans hab hbc) (ih hrest)

theorem forall_mem_of_forall₂ {P : L → Prop} (h : List.Forall₂ R ls ls')
    (hR : ∀ {a b}, R a b → P a → P b) (hls : ∀ l ∈ ls, P l) : ∀ l ∈ ls', P l := by
  induction h with
  | nil => exact nofun
  | cons hab _ ih =>
    rw [List.forall_mem_cons] at hls ⊢
    exact ⟨hR hab hls.1, ih hls.2⟩

theorem exists_of_forall₂ (h : List.Forall₂ R ls ls') {l : L} (hl : ls[i]? = some l) :
    ∃ l', ls'[i]? = some l' ∧ R l l' := by
  induction h generalizing i with
  | nil => cases hl
  | cons hab _ ih =>
    cases i with
    | zero =>
      obtain rfl := Option.some.inj hl
      exact ⟨_, rfl, hab⟩
    | succ i => exact ih hl

end Pointwise

end Hypern.Lib
