import Mathlib.Data.List.Basic
import Mathlib.Data.List.Induction

/-! Texts of words with one separator between each two. -/

namespace Hypern.Lib

variable {α : Type*}

/-- A first word and others, with a separator before each of these. -/
def joinWords (sep : α) (first : List α) (words : List (List α)) : List α :=
  first ++ words.flatMap (sep :: ·)

def IsWord (p : α → Prop) (w : List α) : Prop := w ≠ [] ∧ ∀ c ∈ w, p c

/-- One or more words: the regular expression `p+(sep p+)*`. -/
def Delimited (p : α → Prop) (sep : α) (s : List α) : Prop :=
  ∃ first words, IsWord p first ∧ (∀ w ∈ words, IsWord p w) ∧ s = joinWords sep first words

variable {p : α → Prop} {sep c : α} {s w : List α}

theorem isWord_singleton (hc : p c) : IsWord p [c] :=
  ⟨List.cons_ne_nil c [], List.forall_mem_singleton.mpr hc⟩

theorem IsWord.concat (h : IsWord p w) (hc : p c) : IsWord p (w ++ [c]) := by
  refine ⟨by simp, fun d hd => ?_⟩
  rcases List.mem_append.mp hd with hd | hd
  · exact h.2 d hd
  · rw [List.mem_singleton.mp hd]
    exact hc

theorem joinWords_cons (sep : α) (first w : List α) (words : List (List α)) :
    joinWords sep first (w :: words) = first ++ sep :: joinWords sep w words := by
  simp [joinWords]

theorem joinWords_concat (sep : α) (first : List α) (words : List (List α)) (w : List α) :
    joinWords sep first (words ++ [w]) = joinWords sep first words ++ sep :: w := by
  simp [joinWords]

theorem notMem_of_isWord (hsep : ¬ p sep) (h : IsWord p w) : sep ∉ w := fun hmem => hsep (h.2 sep hmem)

/-- The words can be read off the text. -/
theorem splitOn_joinWords [BEq α] [LawfulBEq α] {first : List α} {words : List (List α)}
    (hfirst : sep ∉ first) (hwords : ∀ w ∈ words, sep ∉ w) :
    (joinWords sep first words).splitOn sep = first :: words := by
  induction words generalizing first with
  | nil => simpa [joinWords] using List.splitOn_eq_singleton hfirst
  | cons w words ih =>
    obtain ⟨hw, hrest⟩ := List.forall_mem_cons.mp hwords
    have htail := ih hw hrest
    rw [joinWords_cons, List.splitOn_append_cons_self, List.splitOn_eq_singleton hfirst, htail]
    rfl

/-- Every text is made of words. -/
theorem exists_joinWords (sep : α) (s : List α) : ∃ first words,
    sep ∉ first ∧ (∀ w ∈ words, sep ∉ w) ∧ s = joinWords sep first words := by
  induction s with
  | nil => exact ⟨[], [], List.not_mem_nil, List.forall_mem_nil _, rfl⟩
  | cons c s ih =>
    obtain ⟨first, words, hfirst, hwords, rfl⟩ := ih
    by_cases hc : c = sep
    · refine ⟨[], first :: words, List.not_mem_nil, List.forall_mem_cons.mpr ⟨hfirst, hwords⟩, ?_⟩
      simp [joinWords, hc]
    · refine ⟨c :: first, words, ?_, hwords, rfl⟩
      rw [List.mem_cons, not_or]
      exact ⟨Ne.symm hc, hfirst⟩

/-- What can be computed word by word. -/
theorem flatMap_splitOn {β : Type*} [BEq α] [LawfulBEq α] {f : List α → List β}
    (hf : ∀ u v, f (u ++ sep :: v) = f u ++ f v) (s : List α) : (s.splitOn sep).flatMap f = f s := by
  obtain ⟨first, words, hfirst, hwords, rfl⟩ := exists_joinWords sep s
  rw [splitOn_joinWords hfirst hwords]
  clear hfirst hwords
  induction words generalizing first with
  | nil => simp [joinWords]
  | cons w words ih =>
    rw [joinWords_cons, hf, ← ih w, List.flatMap_cons]

namespace Delimited

theorem single (hc : p c) : Delimited p sep [c] :=
  ⟨[c], [], isWord_singleton hc, List.forall_mem_nil _, by simp [joinWords]⟩

/-- The last word grows. -/
theorem push (h : Delimited p sep s) (hc : p c) : Delimited p sep (s ++ [c]) := by
  obtain ⟨first, words, hfirst, hwords, rfl⟩ := h
  rcases List.eq_nil_or_concat words with rfl | ⟨before, last, rfl⟩
  · exact ⟨first ++ [c], [], hfirst.concat hc, List.forall_mem_nil _, by simp [joinWords]⟩
  · have hbefore : ∀ w ∈ before, IsWord p w := fun w hw => hwords w (by simp [hw])
    have hlast : IsWord p (last ++ [c]) := (hwords last (by simp)).concat hc
    refine ⟨first, before ++ [last ++ [c]], hfirst, ?_, ?_⟩
    · exact List.forall_mem_append.mpr ⟨hbefore, List.forall_mem_singleton.mpr hlast⟩
    · simp [joinWords_concat]

/-- A new word starts. -/
theorem next (h : Delimited p sep s) (hc : p c) : Delimited p sep (s ++ [sep, c]) := by
  obtain ⟨first, words, hfirst, hwords, rfl⟩ := h
  refine ⟨first, words ++ [[c]], hfirst, ?_, by rw [joinWords_concat]⟩
  exact List.forall_mem_append.mpr ⟨hwords, List.forall_mem_singleton.mpr (isWord_singleton hc)⟩

theorem ne_nil (h : Delimited p sep s) : s ≠ [] := by
  obtain ⟨first, words, hfirst, -, rfl⟩ := h
  simp [joinWords, hfirst.1]

/-- Every such text is made by starting a word, letting it grow and starting another. -/
theorem induction {motive : List α → Prop} (single : ∀ c, p c → motive [c])
    (push : ∀ s c, motive s → p c → motive (s ++ [c]))
    (next : ∀ s c, motive s → p c → motive (s ++ [sep, c])) (h : Delimited p sep s) :
    motive s := by
  obtain ⟨first, words, hfirst, hwords, rfl⟩ := h
  have hgrow : ∀ start : List α, (∀ c, p c → motive (start ++ [c])) →
      ∀ w, IsWord p w → motive (start ++ w) := by
    intro start hstart w hw
    induction w using List.reverseRecOn with
    | nil => exact absurd rfl hw.1
    | append_singleton w c ih =>
      have hc : p c := hw.2 c (by simp)
      by_cases hnil : w = []
      · simpa [hnil] using hstart c hc
      · have hshort : IsWord p w := ⟨hnil, fun d hd => hw.2 d (by simp [hd])⟩
        have hmotive := push (start ++ w) c (ih hshort) hc
        simpa using hmotive
  induction words using List.reverseRecOn with
  | nil =>
    have hmotive := hgrow [] single first hfirst
    simpa [joinWords] using hmotive
  | append_singleton words w ih =>
    have hbefore : motive (joinWords sep first words) := ih fun w hw => hwords w (by simp [hw])
    have hmotive := hgrow (joinWords sep first words ++ [sep])
      (fun c hc => by simpa using next _ c hbefore hc) w (hwords w (by simp))
    simpa [joinWords_concat] using hmotive

/-- Such a text ends in a word. -/
theorem getLast?_mem (h : Delimited p sep s) : ∃ c, s.getLast? = some c ∧ p c := by
  refine h.induction (motive := fun s => ∃ c, s.getLast? = some c ∧ p c)
    (fun c hc => ⟨c, rfl, hc⟩) (fun s c _ hc => ⟨c, ?_, hc⟩) (fun s c _ hc => ⟨c, ?_, hc⟩)
  · exact List.getLast?_concat
  · rw [List.append_cons]
    exact List.getLast?_concat

end Delimited

/-! ## Two functions on words -/

section

variable {β : Type*} {f g : α → List β} {l : List α}

/-- One function gives the elements of the other or none. -/
theorem length_flatMap_le (h : ∀ x ∈ l, f x = g x ∨ f x = []) :
    (l.flatMap f).length ≤ (l.flatMap g).length := by
  induction l with
  | nil => exact Nat.le_refl _
  | cons x l ih =>
    obtain ⟨hx, hl⟩ := List.forall_mem_cons.mp h
    have hle := ih hl
    rw [List.flatMap_cons, List.flatMap_cons, List.length_append, List.length_append]
    rcases hx with hsame | hnone
    · rw [hsame]
      omega
    · rw [hnone, List.length_nil]
      omega

/-- It gives as many only if it gives the same each time. -/
theorem eq_of_length_flatMap (h : ∀ x ∈ l, f x = g x ∨ f x = [])
    (hlength : (l.flatMap g).length ≤ (l.flatMap f).length) : ∀ x ∈ l, f x = g x := by
  induction l with
  | nil => exact List.forall_mem_nil _
  | cons x l ih =>
    obtain ⟨hx, hl⟩ := List.forall_mem_cons.mp h
    have hle := length_flatMap_le hl
    rw [List.flatMap_cons, List.flatMap_cons, List.length_append, List.length_append] at hlength
    have hhead : f x = g x := by
      rcases hx with hsame | hnone
      · exact hsame
      · rw [hnone, List.length_nil] at hlength
        rw [hnone, eq_comm, ← List.length_eq_zero_iff]
        omega
    refine List.forall_mem_cons.mpr ⟨hhead, ih hl ?_⟩
    rw [hhead] at hlength
    omega

end

end Hypern.Lib
