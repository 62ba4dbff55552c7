import Hypern.Lib.Run

/-! Observations of a state that are decided by the last action that says something about
them. -/

namespace Hypern.Lib

variable {S A β : Type*} {step : S → A → Option S} {verdict : A → Option β}

/-- What the last of the actions that has a verdict says, or else `initial`. -/
def lastVerdict (verdict : A → Option β) (initial : β) (as : List A) : β :=
  (as.reverse.findSome? verdict).getD initial

theorem lastVerdict_cons (initial : β) (a : A) (as : List A) :
    lastVerdict verdict initial (a :: as) =
      lastVerdict verdict ((verdict a).getD initial) as := by
  unfold lastVerdict
  rw [List.reverse_cons, List.findSome?_append]
  cases as.reverse.findSome? verdict with
  | some b => rfl
  | none =>
    rw [Option.none_or, Option.getD_none, List.findSome?_cons]
    cases verdict a <;> rfl

theorem lastVerdict_concat (initial : β) (as : List A) (a : A) :
    lastVerdict verdict initial (as ++ [a]) = (verdict a).getD (lastVerdict verdict initial as) := by
  unfold lastVerdict
  rw [List.reverse_concat, List.findSome?_cons]
  cases verdict a <;> rfl

/-- The last that says something is the last of those that say what it says. -/
theorem findSome?_of_lastVerdict {β : Type*} {verdict : A → Option (Option β)}
    {write : A → Option β} {b : β} {as : List A} (h : lastVerdict verdict none as = some b)
    (hnone : ∀ a ∈ as, verdict a = none → write a = none)
    (hsome : ∀ a ∈ as, ∀ b, verdict a = some (some b) → write a = some b) :
    as.reverse.findSome? write = some b := by
  have hlist : ∀ l : List A, (∀ a ∈ l, a ∈ as) → (l.findSome? verdict).getD none = some b →
      l.findSome? write = some b := by
    intro l hmem hl
    induction l with
    | nil => cases hl
    | cons a l ih =>
      obtain ⟨ha, hrest⟩ := List.forall_mem_cons.mp hmem
      rw [List.findSome?_cons] at hl ⊢
      cases hverdict : verdict a with
      | none =>
        rw [hverdict] at hl
        rw [hnone a ha hverdict]
        exact ih hrest hl
      | some said =>
        rw [hverdict] at hl
        have hsaid : said = some b := hl
        rw [hsome a ha b (hsaid ▸ hverdict)]
  exact hlist as.reverse (fun _ => List.mem_reverse.mp) h

/-- If each step changes the observation as its verdict says, a run leaves what the last verdict
of its actions says. -/
theorem exec_lastVerdict {Inv : S → Prop} {obs : S → β}
    (hstep : ∀ s a t, Inv s → step s a = some t → Inv t ∧ obs t = (verdict a).getD (obs s))
    {s t : S} {as : List A} (hs : Inv s) (hexec : exec step s as = some t) :
    Inv t ∧ obs t = lastVerdict verdict (obs s) as := by
  induction as generalizing s with
  | nil =>
    cases hexec
    exact ⟨hs, rfl⟩
  | cons a as ih =>
    obtain ⟨m, hm, hexec⟩ := exec_cons_eq_some.mp hexec
    obtain ⟨hmid, hfirst⟩ := hstep s a m hs hm
    obtain ⟨hend, hrest⟩ := ih hmid hexec
    exact ⟨hend, by rw [hrest, hfirst, lastVerdict_cons]⟩

/-- Several observations at once, of which a state need not show all: a relation to what the last
verdicts say that each step keeps. -/
theorem exec_tracks {ι : Type*} {verdict : ι → A → Option β} {R : S → (ι → β) → Prop}
    (hstep : ∀ s a t w, R s w → step s a = some t → R t fun i => (verdict i a).getD (w i))
    {s t : S} {w : ι → β} {as : List A} (hs : R s w) (hexec : exec step s as = some t) :
    R t fun i => lastVerdict (verdict i) (w i) as := by
  induction as generalizing s w with
  | nil =>
    cases hexec
    exact hs
  | cons a as ih =>
    obtain ⟨m, hm, hexec⟩ := exec_cons_eq_some.mp hexec
    have hrest := ih (hstep s a m w hs hm) hexec
    simpa only [lastVerdict_cons] using hrest

end Hypern.Lib
