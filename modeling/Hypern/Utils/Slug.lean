import Hypern.Lib.Ascii
import Hypern.Lib.Words

/-! `slugify` of `str_utils.rs`, and the form of what it returns. -/

namespace Hypern.Utils

open Lib

/-! ## The scanner -/

/-- The letters of `transliterate_char` and what becomes of them. -/
def transliterations : List (String × String) :=
  [("àáâãäåÀÁÂÃÄÅ", "a"), ("æÆ", "ae"), ("çÇ", "c"), ("èéêëÈÉÊË", "e"), ("ìíîïÌÍÎÏ", "i"),
    ("ðÐ", "d"), ("ñÑ", "n"), ("òóôõöøÒÓÔÕÖØ", "o"), ("ùúûüÙÚÛÜ", "u"), ("ýÿÝŸ", "y"), ("þÞ", "th"),
    ("ß", "ss"), ("đĐ", "d")]

def transliterateChar (ch : Char) : String :=
  match transliterations.find? (·.1.toList.contains ch) with
  | some (_, ascii) => ascii
  | none => ""

section

variable (unicode : Char → Bool)

/-- `char::is_alphabetic`; `unicode` is the Unicode property beyond ASCII. -/
def isAlphabetic (ch : Char) : Bool := if ch.toNat < 0x80 then ch.isAlpha else unicode ch

structure SlugState where
  result : List Char
  lastWasSep : Bool

/-- One turn of the loop. -/
def slugStep (separator : List Char) (s : SlugState) (ch : Char) : SlugState :=
  if ch.isAlphanum then ⟨s.result ++ [ch.toLower], false⟩
  else if isAlphabetic unicode ch then
    -- accented letters without a transliteration leave no trace, not even a separator
    let ascii := (transliterateChar ch).toList
    if !ascii.isEmpty then ⟨s.result ++ ascii, false⟩ else s
  else if !s.lastWasSep && !s.result.isEmpty then ⟨s.result ++ separator, true⟩
  else s

/-- `result.truncate(result.len() - separator.len())` -/
def stripSeparator (separator result : List Char) : List Char :=
  if separator.isSuffixOf result then result.take (result.length - separator.length) else result

def slugify (text separator : String) : String :=
  let scanned := text.toList.foldl (slugStep unicode separator.toList) ⟨[], true⟩
  String.ofList (stripSeparator separator.toList scanned.result)

end

example : slugify (fun _ => true) "  Café & Résumé -- 2026!" "-" = "cafe-resume-2026" := by
  decide +kernel

/-! ## Slugs -/

def IsSlugChar (c : Char) : Prop := c.isLower = true ∨ c.isDigit = true

/-- `[a-z0-9]+(-[a-z0-9]+)*` -/
def Slug (s : List Char) : Prop := Delimited IsSlugChar '-' s

instance (c : Char) : Decidable (IsSlugChar c) := inferInstanceAs (Decidable (_ ∨ _))

theorem isSlugChar_transliterateChar (ch : Char) :
    ∀ c ∈ (transliterateChar ch).toList, IsSlugChar c := by
  have hall : transliterations.all fun row => row.2.toList.all fun c => decide (IsSlugChar c) := by
    decide
  have hrows : ∀ row ∈ transliterations, ∀ c ∈ row.2.toList, IsSlugChar c := by
    simpa only [List.all_eq_true, decide_eq_true_eq] using hall
  unfold transliterateChar
  split
  · next row ascii hfound => exact hrows _ (List.mem_of_find?_eq_some hfound)
  · exact List.forall_mem_nil _

/-! ## What the scanner has written -/

/-- Behind a separator the text waits for the next word, elsewhere it is a slug. -/
def SlugState.Good (s : SlugState) : Prop :=
  if s.lastWasSep then s.result = [] ∨ ∃ written, Slug written ∧ s.result = written ++ ['-']
  else Slug s.result

variable {unicode : Char → Bool} {s : SlugState}

theorem SlugState.Good.push (h : s.Good) {c : Char} (hc : IsSlugChar c) :
    SlugState.Good ⟨s.result ++ [c], false⟩ := by
  obtain ⟨result, lastWasSep⟩ := s
  cases lastWasSep with
  | false => exact Delimited.push h hc
  | true =>
    rcases h with h | ⟨written, hwritten, h⟩
    · change result = [] at h
      rw [h]
      exact Delimited.single hc
    · change result = _ at h
      rw [h, List.append_assoc]
      exact hwritten.next hc

/-- A transliteration may have several letters. -/
theorem SlugState.Good.pushAll (h : s.Good) {cs : List Char} (hne : cs ≠ [])
    (hcs : ∀ c ∈ cs, IsSlugChar c) : SlugState.Good ⟨s.result ++ cs, false⟩ := by
  induction cs generalizing s with
  | nil => exact absurd rfl hne
  | cons c cs ih =>
    have hfirst := h.push (hcs c List.mem_cons_self)
    by_cases hnil : cs = []
    · rwa [hnil]
    · have hrest := ih hfirst hnil fun d hd => hcs d (List.mem_cons_of_mem _ hd)
      simpa using hrest

theorem slugStep_good (h : s.Good) (ch : Char) : (slugStep unicode ['-'] s ch).Good := by
  unfold slugStep
  dsimp only
  split_ifs with halnum halpha hascii hsep
  · exact h.push (isLower_or_isDigit_toLower halnum)
  · exact h.pushAll (by simpa using hascii) (isSlugChar_transliterateChar ch)
  · exact h
  · simp only [Bool.and_eq_true, Bool.not_eq_true', List.isEmpty_eq_false_iff] at hsep
    have hslug : Slug s.result := by
      unfold SlugState.Good at h
      rwa [hsep.1] at h
    exact .inr ⟨s.result, hslug, rfl⟩
  · exact h

theorem foldl_slugStep_good (text : List Char) (h : s.Good) :
    (text.foldl (slugStep unicode ['-']) s).Good := by
  induction text generalizing s with
  | nil => exact h
  | cons ch text ih => exact ih (slugStep_good h ch)

theorem stripSeparator_slug {result : List Char} (h : Slug result) :
    stripSeparator ['-'] result = result := by
  obtain ⟨c, hlast, hc⟩ := h.getLast?_mem
  have hdash : ¬ IsSlugChar '-' := by decide
  have hno : ¬ ['-'] <:+ result := by
    rintro ⟨before, rfl⟩
    rw [List.getLast?_concat] at hlast
    exact hdash (Option.some.inj hlast ▸ hc)
  unfold stripSeparator
  rw [if_neg fun hsuffix => hno (List.isSuffixOf_iff_suffix.mp hsuffix)]

theorem stripSeparator_concat (written : List Char) :
    stripSeparator ['-'] (written ++ ['-']) = written := by
  have hsuffix : ['-'].isSuffixOf (written ++ ['-']) = true :=
    List.isSuffixOf_iff_suffix.mpr (List.suffix_append _ _)
  simp [stripSeparator, hsuffix]

/-- Of what is scanned, a slug or nothing is left. -/
theorem SlugState.Good.stripped (h : s.Good) :
    stripSeparator ['-'] s.result = [] ∨ Slug (stripSeparator ['-'] s.result) := by
  unfold SlugState.Good at h
  split_ifs at h
  · rcases h with h | ⟨written, hwritten, h⟩
    · rw [h]
      exact .inl rfl
    · rw [h, stripSeparator_concat]
      exact .inr hwritten
  · rw [stripSeparator_slug h]
    exact .inr h

theorem slugify_form (unicode : Char → Bool) (text : String) :
    (slugify unicode text "-").toList = [] ∨ Slug (slugify unicode text "-").toList := by
  have hstart : SlugState.Good ⟨[], true⟩ := .inl rfl
  have hgood := @foldl_slugStep_good unicode _ text.toList hstart
  unfold slugify
  rw [String.toList_ofList]
  exact hgood.stripped

/-! ## Slugs are left alone -/

theorem slugStep_slugChar (separator : List Char) (s : SlugState) {c : Char} (hc : IsSlugChar c) :
    slugStep unicode separator s c = ⟨s.result ++ [c], false⟩ := by
  obtain ⟨halnum, hlower⟩ := toLower_of_isLower_or_isDigit hc
  rw [slugStep, if_pos halnum, hlower]

theorem slugStep_dash {result : List Char} (hne : result ≠ []) :
    slugStep unicode ['-'] ⟨result, false⟩ '-' = ⟨result ++ ['-'], true⟩ := by
  have halnum : ('-').isAlphanum = false := by decide
  have halpha : isAlphabetic unicode '-' = false := rfl
  simp [slugStep, halnum, halpha, hne]

theorem foldl_slugStep_slug {text : List Char} (h : Slug text) :
    text ≠ [] ∧ text.foldl (slugStep unicode ['-']) ⟨[], true⟩ = ⟨text, false⟩ := by
  refine h.induction
    (motive := fun s => s ≠ [] ∧ s.foldl (slugStep unicode ['-']) ⟨[], true⟩ = ⟨s, false⟩)
    (fun c hc => ?_) (fun s c hs hc => ?_) (fun s c hs hc => ?_)
  · simp [slugStep_slugChar _ _ hc]
  · rw [List.foldl_append, hs.2]
    simp [slugStep_slugChar _ _ hc]
  · rw [List.foldl_append, hs.2]
    simp [slugStep_dash hs.1, slugStep_slugChar _ _ hc]

theorem slugify_of_slug (unicode : Char → Bool) {text : String} (h : Slug text.toList) :
    slugify unicode text "-" = text := by
  have hscan := (@foldl_slugStep_slug unicode _ h).2
  have hdash : "-".toList = ['-'] := rfl
  unfold slugify
  rw [hdash, hscan]
  dsimp only
  rw [stripSeparator_slug h, String.ofList_toList]

theorem slugify_wellFormed_and_stable (unicode : Char → Bool) (text : String) :
    (slugify unicode text "-" = "" ∨ Slug (slugify unicode text "-").toList) ∧
      slugify unicode (slugify unicode text "-") "-" = slugify unicode text "-" := by
  rcases slugify_form unicode text with hempty | hslug
  · have hnil : slugify unicode text "-" = "" := String.toList_eq_nil_iff.mp hempty
    rw [hnil]
    exact ⟨.inl rfl, rfl⟩
  · exact ⟨.inr hslug, slugify_of_slug unicode hslug⟩

end Hypern.Utils
