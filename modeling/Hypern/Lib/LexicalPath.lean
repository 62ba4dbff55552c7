import Hypern.Lib.PosixPath
import Mathlib.Data.List.Induction

/-! What a path, absolute or relative, says of itself before any file system is asked: where it
starts, how far it goes up from there, and the names below. A path lies in a directory when it
says no less than the directory's. -/

namespace Hypern.Lib.PosixPath

structure Lexical where
  rooted : Bool
  ups : Nat
  names : List (List Char)
  deriving DecidableEq

namespace Lexical

/-- There is nothing above the root, but something above where a relative path starts. -/
def enter (l : Lexical) (c : List Char) : Lexical :=
  if c = [] ∨ c = ['.'] then l
  else if c = ['.', '.'] then
    if l.names ≠ [] then { l with names := l.names.dropLast }
    else if l.rooted then l
    else { l with ups := l.ups + 1 }
  else { l with names := l.names ++ [c] }

def resolve (l : Lexical) (cs : List (List Char)) : Lexical := cs.foldl enter l

def ofPath (p : List Char) : Lexical := resolve ⟨isAbsolute p, 0, []⟩ (components p)

/-- `l` is `dir` or something below it. -/
def Below (dir l : Lexical) : Prop :=
  l.rooted = dir.rooted ∧ l.ups = dir.ups ∧ dir.names <+: l.names

instance (dir l : Lexical) : Decidable (Below dir l) := inferInstanceAs (Decidable (_ ∧ _ ∧ _))

@[simp] theorem enter_nil (l : Lexical) : l.enter [] = l := rfl

end Lexical

/-- `p` names the directory `dir` or something below it, read off the two texts. -/
def LiesIn (dir p : List Char) : Prop := Lexical.Below (.ofPath dir) (.ofPath p)

instance (dir p : List Char) : Decidable (LiesIn dir p) :=
  inferInstanceAs (Decidable (Lexical.Below _ _))

theorem ofPath_join (a : List Char) {b : List Char} (hb : isAbsolute b = false) :
    Lexical.ofPath (join a b) = (Lexical.ofPath a).resolve (components b) := by
  unfold Lexical.ofPath Lexical.resolve
  rw [isAbsolute_join_relative hb]
  exact foldl_components_join _ Lexical.enter_nil _ hb

/-! ## Paths that do not leave the directory they start in -/

/-- From `depth` names below a directory, the components never lead above it. -/
def staysBelow : Nat → List (List Char) → Bool
  | _, [] => true
  | depth, c :: cs =>
    if c = [] ∨ c = ['.'] then staysBelow depth cs
    else if c = ['.', '.'] then
      match depth with
      | 0 => false
      | depth + 1 => staysBelow depth cs
    else staysBelow (depth + 1) cs

namespace Lexical

variable {l dir : Lexical} {cs : List (List Char)}

theorem below_resolve {below : List (List Char)} (h : staysBelow below.length cs = true) :
    Below dir (resolve { dir with names := dir.names ++ below } cs) := by
  -- the induction is on the components; `below` is what is entered of the directory
  induction cs generalizing below with
  | nil => exact ⟨rfl, rfl, List.prefix_append _ _⟩
  | cons c cs ih =>
    rw [resolve, List.foldl_cons]
    unfold staysBelow at h
    unfold enter
    split_ifs at h ⊢ with hskip hdots hnames hrooted
    · exact ih h
    · cases below using List.reverseRecOn with
      | nil => simp at h
      | append_singleton below name =>
        rw [List.length_append, List.length_singleton] at h
        dsimp only
        rw [← List.append_assoc, List.dropLast_concat]
        exact ih h
    · have hnil : below = [] := (List.append_eq_nil_iff.mp (not_not.mp hnames)).2
      rw [hnil] at h
      simp at h
    · have hnil : below = [] := (List.append_eq_nil_iff.mp (not_not.mp hnames)).2
      rw [hnil] at h
      simp at h
    · dsimp only
      rw [List.append_assoc]
      refine ih ?_
      rwa [List.length_append, List.length_singleton]

end Lexical

theorem staysBelow_of_no_dotDot {cs : List (List Char)} (h : ['.', '.'] ∉ cs) (depth : Nat) :
    staysBelow depth cs = true := by
  induction cs generalizing depth with
  | nil => rfl
  | cons c cs ih =>
    have hc : c ≠ ['.', '.'] := fun hc => h (hc ▸ List.mem_cons_self)
    have hcs := ih fun hcs => h (List.mem_cons_of_mem _ hcs)
    unfold staysBelow
    rw [if_neg hc]
    split_ifs
    · exact hcs _
    · exact hcs _

theorem liesIn_join (dir : List Char) {p : List Char} (hp : isAbsolute p = false)
    (h : staysBelow 0 (components p) = true) : LiesIn dir (join dir p) := by
  unfold LiesIn
  rw [ofPath_join dir hp]
  have hbelow := @Lexical.below_resolve (.ofPath dir) (components p) [] h
  rwa [List.append_nil] at hbelow

/-! ## Paths that leave it -/

namespace Lexical

theorem mem_names_enter {l : Lexical} {c n : List Char} (h : n ∈ (l.enter c).names) :
    n ∈ l.names ∨ n = c := by
  unfold enter at h
  split_ifs at h
  · exact .inl h
  · exact .inl (List.dropLast_subset _ h)
  · exact .inl h
  · exact .inl h
  · exact (List.mem_append.mp h).imp_right List.mem_singleton.mp

theorem mem_names_resolve {l : Lexical} {cs : List (List Char)} {n : List Char}
    (h : n ∈ (l.resolve cs).names) : n ∈ l.names ∨ n ∈ cs := by
  induction cs generalizing l with
  | nil => exact .inl h
  | cons c cs ih =>
    rcases ih h with hnames | hcs
    · rcases mem_names_enter hnames with hold | rfl
      · exact .inl hold
      · exact .inr List.mem_cons_self
    · exact .inr (List.mem_cons_of_mem _ hcs)

/-- Once the components have led out of a directory, they do not lead back to a name that is
not one of theirs. -/
theorem not_below_resolve {name : List Char} {cs : List (List Char)} (hname : name ∉ cs)
    {rooted : Bool} {ups : Nat} {below : List (List Char)}
    (h : staysBelow below.length cs = false) :
    ¬ Below ⟨rooted, ups, [name]⟩ (resolve ⟨rooted, ups, name :: below⟩ cs) := by
  induction cs generalizing below with
  | nil => simp [staysBelow] at h
  | cons c cs ih =>
    have hcs : name ∉ cs := fun hmem => hname (List.mem_cons_of_mem _ hmem)
    rw [resolve, List.foldl_cons]
    unfold staysBelow at h
    unfold enter
    split_ifs at h ⊢ with hskip hdots hnames
    · exact ih hcs h
    · cases below using List.reverseRecOn with
      | nil =>
        rintro ⟨-, -, hleading⟩
        have hmem := hleading.subset (List.mem_singleton_self name)
        rcases mem_names_resolve hmem with hempty | hmem
        · cases hempty
        · exact hcs hmem
      | append_singleton below last =>
        rw [List.length_append, List.length_singleton] at h
        dsimp only
        rw [← List.cons_append, List.dropLast_concat]
        exact ih hcs h
    · exact absurd (List.cons_ne_nil _ _) hnames
    · exact absurd (List.cons_ne_nil _ _) hnames
    · refine @ih hcs (below ++ [c]) ?_
      rwa [List.length_append, List.length_singleton]

end Lexical

/-- A directory below the root with a name that is longer than the path. -/
def freshDir (p : List Char) : List Char := '/' :: List.replicate (p.length + 3) 'a'

theorem components_freshDir (p : List Char) :
    components (freshDir p) = [[], List.replicate (p.length + 3) 'a'] := by
  have hslash : '/' ∉ List.replicate (p.length + 3) 'a' := fun hmem =>
    absurd (List.eq_of_mem_replicate hmem) (by decide)
  exact (List.splitOn_append_cons_self_of_not_mem (List.not_mem_nil) _).trans
    (congrArg _ (List.splitOn_eq_singleton hslash))

theorem ofPath_freshDir (p : List Char) :
    Lexical.ofPath (freshDir p) = ⟨true, 0, [List.replicate (p.length + 3) 'a']⟩ := by
  unfold Lexical.ofPath
  rw [components_freshDir]
  rfl

theorem not_mem_components_freshDir (p : List Char) :
    List.replicate (p.length + 3) 'a' ∉ components p := by
  intro hmem
  have hlength := (infix_of_mem_components hmem).length_le
  rw [List.length_replicate] at hlength
  omega

/-- Of the directories, only those that a path does not leave have it in them wherever they
are. -/
theorem not_liesIn_freshDir {p : List Char}
    (h : isAbsolute p = true ∨ staysBelow 0 (components p) = false) :
    ¬ LiesIn (freshDir p) (join (freshDir p) p) := by
  have hfresh := not_mem_components_freshDir p
  unfold LiesIn
  by_cases habsolute : isAbsolute p = true
  · rw [join, if_pos habsolute, ofPath_freshDir]
    rintro ⟨-, -, hleading⟩
    rcases Lexical.mem_names_resolve (hleading.subset (List.mem_singleton_self _)) with hempty | hmem
    · cases hempty
    · exact hfresh hmem
  · rw [ofPath_join _ (Bool.eq_false_iff.mpr habsolute), ofPath_freshDir]
    exact @Lexical.not_below_resolve _ _ hfresh true 0 [] (h.resolve_left habsolute)

/-! ## Paths component by component -/

/-- The component leads somewhere. -/
def leads (c : List Char) : Bool := decide (c ≠ [] ∧ c ≠ ['.'])

def parts (p : List Char) : List (List Char) := (components p).filter leads

/-- A directory by the way to it: from the root or not, and the components that lead there. -/
structure Walk where
  rooted : Bool
  parts : List (List Char)
  deriving DecidableEq

namespace Walk

def lexical (w : Walk) : Lexical := Lexical.resolve ⟨w.rooted, 0, []⟩ w.parts

def LiesIn (dir : List Char) (w : Walk) : Prop := Lexical.Below (.ofPath dir) w.lexical

/-- `dir` itself, or a directory on the way to it. -/
def OnWay (dir : List Char) (w : Walk) : Prop :=
  w.rooted = isAbsolute dir ∧ w.parts <+: PosixPath.parts dir

end Walk

theorem resolve_parts (l : Lexical) (cs : List (List Char)) :
    l.resolve (cs.filter leads) = l.resolve cs := by
  unfold Lexical.resolve
  induction cs generalizing l with
  | nil => rfl
  | cons c cs ih =>
    cases hc : leads c with
    | true => rw [List.filter_cons_of_pos hc, List.foldl_cons, List.foldl_cons, ih]
    | false =>
      have hskip : c = [] ∨ c = ['.'] := by simpa [leads, or_iff_not_imp_left] using hc
      have hstay : l.enter c = l := if_pos hskip
      rw [List.filter_cons_of_neg (by rw [hc]; exact Bool.false_ne_true), List.foldl_cons, hstay, ih]

theorem ofPath_eq_resolve (p : List Char) :
    Lexical.ofPath p = Lexical.resolve ⟨isAbsolute p, 0, []⟩ (parts p) :=
  (resolve_parts _ _).symm

theorem staysBelow_parts (depth : Nat) (cs : List (List Char)) :
    staysBelow depth (cs.filter leads) = staysBelow depth cs := by
  induction cs generalizing depth with
  | nil => rfl
  | cons c cs ih =>
    cases hc : leads c with
    | true =>
      rw [List.filter_cons_of_pos hc]
      unfold staysBelow
      simp only [ih]
    | false =>
      have hskip : c = [] ∨ c = ['.'] := by simpa [leads, or_iff_not_imp_left] using hc
      rw [List.filter_cons_of_neg (by rw [hc]; exact Bool.false_ne_true), ih]
      conv_rhs => unfold staysBelow
      rw [if_pos hskip]

/-- What has left the directory once is not let in again. -/
theorem staysBelow_of_append {depth : Nat} {cs cs' : List (List Char)}
    (h : staysBelow depth (cs ++ cs') = true) : staysBelow depth cs = true := by
  induction cs generalizing depth with
  | nil => rfl
  | cons c cs ih =>
    rw [List.cons_append] at h
    unfold staysBelow at h ⊢
    split_ifs at h ⊢
    · exact ih h
    · cases depth with
      | zero => cases h
      | succ depth => exact ih h
    · exact ih h

theorem parts_append (a b : List Char) : parts (a ++ '/' :: b) = parts a ++ parts b := by
  unfold parts components
  rw [List.splitOn_append_cons_self, List.filter_append]

theorem parts_join (a : List Char) {b : List Char} (hb : isAbsolute b = false) :
    parts (join a b) = parts a ++ parts b := by
  unfold join
  rw [hb, if_neg Bool.false_ne_true]
  split_ifs with h
  · obtain rfl | hlast := h
    · rfl
    · obtain ⟨a', rfl⟩ := List.getLast?_eq_some_iff.mp hlast
      have hempty : parts [] = [] := rfl
      rw [List.append_assoc, List.singleton_append, parts_append, parts_append, hempty,
        List.append_nil]
  · exact parts_append a b

theorem parts_freshDir (p : List Char) :
    parts (freshDir p) = [List.replicate (p.length + 3) 'a'] := by
  unfold parts
  rw [components_freshDir]
  rfl

end Hypern.Lib.PosixPath
