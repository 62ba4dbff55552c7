import Mathlib.Data.List.Forall2

/-! Computations in sequence, which stop at the first failure. -/

namespace Hypern.Lib

variable {α β ε : Type} {f : α → Except ε β} {a : α} {l : List α} {bs : List β} {e : ε}

theorem bind_eq_error {x : Except ε α} {k : α → Except ε β} (h : x >>= k = .error e) :
    x = .error e ∨ ∃ a, x = .ok a ∧ k a = .error e := by
  cases x with
  | error x =>
    cases h
    exact .inl rfl
  | ok a => exact .inr ⟨a, rfl, h⟩

theorem bind_eq_ok {b : β} {x : Except ε α} {k : α → Except ε β} (h : x >>= k = .ok b) :
    ∃ a, x = .ok a ∧ k a = .ok b := by
  cases x with
  | error x => cases h
  | ok a => exact ⟨a, rfl, h⟩

theorem exists_mapM_ok_iff : (∃ bs, l.mapM f = .ok bs) ↔ ∀ a ∈ l, ∃ b, f a = .ok b := by
  induction l with
  | nil => exact iff_of_true ⟨[], rfl⟩ nofun
  | cons a l ih =>
    rw [List.forall_mem_cons, ← ih, List.mapM_cons]
    cases f a with
    | error x => exact iff_of_false nofun nofun
    | ok b =>
      cases l.mapM f with
      | error x => exact iff_of_false nofun nofun
      | ok bs => exact iff_of_true ⟨b :: bs, rfl⟩ ⟨⟨b, rfl⟩, bs, rfl⟩

theorem mapM_cons_ok (h : (a :: l).mapM f = .ok bs) :
    ∃ b bs', f a = .ok b ∧ l.mapM f = .ok bs' ∧ bs = b :: bs' := by
  rw [List.mapM_cons] at h
  obtain ⟨b, ha, h⟩ := bind_eq_ok h
  obtain ⟨bs', hl, h⟩ := bind_eq_ok h
  exact ⟨b, bs', ha, hl, (Except.ok.inj h).symm⟩

/-- The results, one for each item. -/
theorem forall₂_of_mapM (h : l.mapM f = .ok bs) : List.Forall₂ (fun a b => f a = .ok b) l bs := by
  induction l generalizing bs with
  | nil =>
    cases h
    exact .nil
  | cons a l ih =>
    obtain ⟨b, bs', ha, hl, rfl⟩ := mapM_cons_ok h
    exact .cons ha (ih hl)

theorem mapM_eq_ok_iff : l.mapM f = .ok bs ↔ List.Forall₂ (fun a b => f a = .ok b) l bs := by
  refine ⟨forall₂_of_mapM, ?_⟩
  intro h
  induction h with
  | nil => rfl
  | cons ha _ ih =>
    rw [List.mapM_cons, ha, ih]
    rfl

theorem map_eq_of_mapM (h : l.mapM f = .ok bs) : l.map f = bs.map .ok := by
  have hall := forall₂_of_mapM h
  clear h
  induction hall with
  | nil => rfl
  | cons ha _ ih => rw [List.map_cons, List.map_cons, ha, ih]

theorem mem_of_mapM {b : β} (h : l.mapM f = .ok bs) (hmem : a ∈ l) (ha : f a = .ok b) : b ∈ bs := by
  have hmap := map_eq_of_mapM h
  have hb : Except.ok b ∈ bs.map (.ok : β → Except ε β) := hmap ▸ ha ▸ List.mem_map_of_mem hmem
  obtain ⟨b', hb', heq⟩ := List.mem_map.mp hb
  cases heq
  exact hb'

theorem exists_of_mem_mapM {b : β} (h : l.mapM f = .ok bs) (hmem : b ∈ bs) :
    ∃ a, a ∈ l ∧ f a = .ok b := by
  have hb : Except.ok b ∈ l.map f := map_eq_of_mapM h ▸ List.mem_map_of_mem hmem
  exact List.mem_map.mp hb

/-- The failure is one of an item. -/
theorem exists_of_mapM_error (h : l.mapM f = .error e) : ∃ a ∈ l, f a = .error e := by
  induction l with
  | nil => cases h
  | cons a l ih =>
    rw [List.mapM_cons] at h
    rcases bind_eq_error h with ha | ⟨b, -, h⟩
    · exact ⟨a, List.mem_cons_self, ha⟩
    · rcases bind_eq_error h with hl | ⟨bs, -, h⟩
      · obtain ⟨a', hmem, ha'⟩ := ih hl
        exact ⟨a', List.mem_cons_of_mem _ hmem, ha'⟩
      · cases h

/-- A relation between items and results that holds of each pair. -/
theorem exists_mapM_forall₂_iff {R : α → β → Prop} :
    (∃ bs, l.mapM f = .ok bs ∧ List.Forall₂ R l bs) ↔ ∀ a ∈ l, ∃ b, f a = .ok b ∧ R a b := by
  induction l with
  | nil => exact iff_of_true ⟨[], rfl, .nil⟩ (List.forall_mem_nil _)
  | cons a l ih =>
    rw [List.forall_mem_cons, ← ih]
    constructor
    · rintro ⟨bs, hok, hall⟩
      obtain ⟨b, bs', ha, hl, rfl⟩ := mapM_cons_ok hok
      obtain ⟨hb, hbs⟩ := List.forall₂_cons.mp hall
      exact ⟨⟨b, ha, hb⟩, bs', hl, hbs⟩
    · rintro ⟨⟨b, ha, hb⟩, bs', hl, hbs⟩
      refine ⟨b :: bs', ?_, .cons hb hbs⟩
      rw [List.mapM_cons, ha, hl]
      rfl

/-- The error of an item, if it has one. -/
def failureOf (f : α → Except ε β) (a : α) : Option ε :=
  match f a with
  | .ok _ => none
  | .error e => some e

/-- The first failure is the one that is reported. -/
theorem mapM_eq_error_iff : l.mapM f = .error e ↔ (l.filterMap (failureOf f)).head? = some e := by
  induction l with
  | nil => exact iff_of_false nofun nofun
  | cons a l ih =>
    rw [List.mapM_cons, List.filterMap_cons, failureOf]
    cases ha : f a with
    | error x =>
      constructor
      · intro h
        rw [Except.error.inj h]
        rfl
      · intro h
        rw [← Option.some.inj h]
        rfl
    | ok b =>
      refine Iff.trans ?_ ih
      cases l.mapM f with
      | error x => exact Iff.rfl
      | ok bs => exact iff_of_false nofun nofun

theorem mapM_reverse (h : l.mapM f = .ok bs) : l.reverse.mapM f = .ok bs.reverse := by
  induction l generalizing bs with
  | nil =>
    cases h
    rfl
  | cons a l ih =>
    obtain ⟨b, bs', ha, hl, rfl⟩ := mapM_cons_ok h
    rw [List.reverse_cons, List.reverse_cons, List.mapM_append, ih hl, List.mapM_cons, ha]
    rfl

theorem mapM_eq_self {g : α → Except ε α} (h : ∀ a ∈ l, g a = .ok a) : l.mapM g = .ok l := by
  induction l with
  | nil => rfl
  | cons a l ih =>
    rw [List.forall_mem_cons] at h
    rw [List.mapM_cons, h.1, ih h.2]
    rfl

/-- A loop that computes a result for each item and adds it to what it has. -/
theorem foldlM_eq_mapM {σ : Type} (add : σ → β → σ) (s : σ) :
    l.foldlM (fun s a => (f a).map (add s)) s = (l.mapM f).map (List.foldl add s) := by
  induction l generalizing s with
  | nil => rfl
  | cons a l ih =>
    rw [List.foldlM_cons, List.mapM_cons]
    cases f a with
    | error x => rfl
    | ok b =>
      refine (ih (add s b)).trans ?_
      show _ = Except.map _ (l.mapM f >>= _)
      cases l.mapM f <;> rfl

theorem mapM_eq_none_iff {g : α → Option β} : l.mapM g = none ↔ ∃ a ∈ l, g a = none := by
  induction l with
  | nil => exact iff_of_false nofun nofun
  | cons a l ih =>
    rw [List.mapM_cons, List.exists_mem_cons_iff, ← ih]
    cases g a with
    | none => exact iff_of_true rfl (.inl rfl)
    | some b =>
      cases l.mapM g with
      | none => exact iff_of_true rfl (.inr rfl)
      | some bs => exact iff_of_false nofun (fun h => h.elim nofun nofun)

theorem forall₂_of_mapM_some {g : α → Option β} (h : l.mapM g = some bs) :
    List.Forall₂ (fun a b => g a = some b) l bs := by
  induction l generalizing bs with
  | nil =>
    cases h
    exact .nil
  | cons a l ih =>
    rw [List.mapM_cons] at h
    obtain ⟨b, ha, h⟩ := Option.bind_eq_some_iff.mp h
    obtain ⟨bs', hl, h⟩ := Option.bind_eq_some_iff.mp h
    cases h
    exact .cons ha (ih hl)

theorem mem_mapM_some {g : α → Option β} {b : β} (h : l.mapM g = some bs) :
    b ∈ bs ↔ ∃ a ∈ l, g a = some b := by
  have hall := forall₂_of_mapM_some h
  clear h
  induction hall with
  | nil => exact iff_of_false nofun nofun
  | cons ha _ ih =>
    rw [List.mem_cons, List.exists_mem_cons_iff, ha, Option.some_inj, eq_comm]
    exact or_congr_right ih

end Hypern.Lib
