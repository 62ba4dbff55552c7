import Mathlib.Data.List.Basic
import Mathlib.Tactic.Common

/-! POSIX paths as lists of characters: joining, lexical normalisation, and what it takes
for a joined path to stay below the directory it was joined to. -/

namespace Hypern.Lib.PosixPath

def components (p : List Char) : List (List Char) := p.splitOn '/'

def enter (stack : List (List Char)) (c : List Char) : List (List Char) :=
  if c = [] ∨ c = ['.'] then stack
  else if c = ['.', '.'] then stack.dropLast
  else stack ++ [c]

def resolve (stack : List (List Char)) (cs : List (List Char)) : List (List Char) :=
  cs.foldl enter stack

def normalized (p : List Char) : List (List Char) := resolve [] (components p)

def isAbsolute (p : List Char) : Bool := p.head? == some '/'

def join (a b : List Char) : List Char :=
  if isAbsolute b then b
  else if a = [] ∨ a.getLast? = some '/' then a ++ b
  else a ++ '/' :: b

/-- `normpath` of an absolute path; exactly two leading slashes are kept. -/
def normpath (p : List Char) : List Char :=
  let twoSlashes := ['/', '/'].isPrefixOf p && p[2]? != some '/'
  let root := if twoSlashes then ['/', '/'] else ['/']
  root ++ ['/'].intercalate (normalized p)

def hasDotDot : List Char → Bool
  | [] => false
  | c :: cs => (c == '.' && cs.head? == some '.') || hasDotDot cs

/-- `p` names the directory `dir` or something below it. -/
def Inside (dir p : List Char) : Prop := isAbsolute p = true ∧ normalized dir <+: normalized p

instance (dir p : List Char) : Decidable (Inside dir p) :=
  inferInstanceAs (Decidable (_ ∧ _))

theorem prefix_resolve (stack : List (List Char)) {cs : List (List Char)} (h : ['.', '.'] ∉ cs) :
    stack <+: resolve stack cs := by
  -- every component but `..` leaves the stack alone or pushes onto it
  induction cs generalizing stack with
  | nil => exact List.prefix_refl _
  | cons c cs ih =>
    have hc : c ≠ ['.', '.'] := fun hc => h (hc ▸ List.mem_cons_self)
    have hstep : stack <+: enter stack c := by
      unfold enter
      rw [if_neg hc]
      split_ifs
      · exact List.prefix_refl _
      · exact List.prefix_append _ _
    exact hstep.trans (ih _ fun hcs => h (List.mem_cons_of_mem _ hcs))

theorem mem_intersperse {α : Type} {l : List α} {a sep : α} (h : a ∈ l) : a ∈ l.intersperse sep := by
  obtain ⟨i, hi⟩ := List.mem_iff_getElem?.mp h
  exact List.mem_iff_getElem?.mpr ⟨2 * i, by rw [List.getElem?_intersperse_two_mul, hi]⟩

theorem infix_of_mem_components {p c : List Char} (h : c ∈ components p) : c <:+: p := by
  have hjoin : ['/'].intercalate (components p) = p := List.intercalate_splitOn '/'
  rw [← hjoin]
  exact List.infix_of_mem_flatten (mem_intersperse h)

theorem hasDotDot_append (s t : List Char) : hasDotDot (s ++ '.' :: '.' :: t) = true := by
  induction s with
  | nil => rfl
  | cons c s ih =>
    rw [List.cons_append, hasDotDot, ih, Bool.or_true]

theorem dotDot_not_mem_components {p : List Char} (h : hasDotDot p = false) :
    ['.', '.'] ∉ components p := by
  intro hmem
  obtain ⟨s, t, hp⟩ := infix_of_mem_components hmem
  have htrue : hasDotDot p = true := by
    rw [← hp, List.append_assoc]
    exact hasDotDot_append s t
  rw [h] at htrue
  cases htrue

theorem isAbsolute_join_relative {a b : List Char} (hb : isAbsolute b = false) :
    isAbsolute (join a b) = isAbsolute a := by
  unfold join
  rw [hb, if_neg Bool.false_ne_true]
  cases a with
  | nil => rw [if_pos (.inl rfl), List.nil_append, hb]; rfl
  | cons c a => split_ifs <;> rfl

/-- The components of a joined path, for a reading that skips empty components. -/
theorem foldl_components_join {β : Type} (f : β → List Char → β) (hskip : ∀ s, f s [] = s) (s : β)
    {a b : List Char} (hb : isAbsolute b = false) :
    (components (join a b)).foldl f s = (components b).foldl f ((components a).foldl f s) := by
  have hsplit (a' : List Char) (c : List Char) : (components (a' ++ '/' :: c)).foldl f s =
      (components c).foldl f ((components a').foldl f s) := by
    rw [components, List.splitOn_append_cons_self, List.foldl_append]
    rfl
  have hempty (s : β) : (components []).foldl f s = s := hskip s
  unfold join
  rw [hb, if_neg Bool.false_ne_true]
  split_ifs with h
  · obtain rfl | hlast := h
    · rw [hempty]
      rfl
    · obtain ⟨a', rfl⟩ := List.getLast?_eq_some_iff.mp hlast
      rw [List.append_assoc, List.singleton_append, hsplit, hsplit, hempty]
  · exact hsplit a b

theorem normalized_join {a b : List Char} (hb : isAbsolute b = false) :
    normalized (join a b) = resolve (normalized a) (components b) :=
  foldl_components_join enter (fun _ => if_pos (.inl rfl)) [] hb

theorem isAbsolute_join {a b : List Char} (ha : isAbsolute a = true) : isAbsolute (join a b) = true := by
  cases hb : isAbsolute b with
  | false => rw [isAbsolute_join_relative hb, ha]
  | true =>
    unfold join
    rw [hb, if_pos rfl]
    exact hb

theorem Inside.refl {dir : List Char} (h : isAbsolute dir = true) : Inside dir dir :=
  ⟨h, List.prefix_refl _⟩

theorem Inside.join {dir a b : List Char} (h : Inside dir a) (hb : isAbsolute b = false)
    (hdots : hasDotDot b = false) : Inside dir (join a b) := by
  refine ⟨isAbsolute_join h.1, h.2.trans ?_⟩
  rw [normalized_join hb]
  exact prefix_resolve _ (dotDot_not_mem_components hdots)

theorem isAbsolute_normpath (p : List Char) : isAbsolute (normpath p) = true := by
  dsimp only [normpath]
  split_ifs <;> rfl

end Hypern.Lib.PosixPath
