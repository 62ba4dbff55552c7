import Hypern.Http.MultipartForms
import Hypern.Lib.LexicalPath
import Mathlib.Data.List.Infix

/-! Saving an uploaded file in a directory under the name that the client gave it. -/

namespace Hypern.Http

open Lib Lib.PosixPath

def hasZero (cs : List (List Char)) : Bool := cs.any fun c => c.contains (Char.ofNat 0)

/-- The last component is a name. -/
def endsInName (cs : List (List Char)) : Bool := cs.getLast?.any (· ≠ ['.', '.'])

/-- A file with that path can be made: the path ends in a name and has no zero character. -/
def creatable (p : List Char) : Bool :=
  !p.contains (Char.ofNat 0) &&
    match (components p).getLast? with
    | some name => name ≠ [] && name ≠ ['.'] && name ≠ ['.', '.']
    | none => false

inductive Mkdir
  | made | notFound | failed
  deriving DecidableEq

/-- What the file system answers while one file is saved; its answers about directories may depend on
those already made. -/
structure SaveAnswers where
  pathExists : List Char → Bool
  parentExists : Walk → Bool
  mkdir : List Walk → Walk → Mkdir
  isDir : List Walk → Walk → Bool
  /-- `File::create` succeeds. -/
  create : List Char → Bool
  writeAll : List Char → List UInt8 → Bool
  create_creatable : ∀ p, create p = true → creatable p = true
  mkdir_named : ∀ made dir, mkdir made dir = .made → endsInName dir.parts = true
  /-- A path with a zero character is refused before anyone looks for it. -/
  mkdir_zero : ∀ made dir, hasZero dir.parts = true →
    mkdir made dir = .failed ∧ isDir made dir = false

inductive SaveError
  | fileExists (message : String)
  | io

/-- What the call returns, the directories that it made, and the path of the file that it made and
wrote to, if any. -/
structure Saving where
  result : Except SaveError (List Char)
  made : List Walk
  written : Option (List Char)

/-- `fs::create_dir_all`, up the components of the path: whether the directory is there in the end, and
the directories made. The root is there, and the empty path needs nothing. -/
def createDirAll (fs : SaveAnswers) (rooted : Bool) :
    List (List Char) → List Walk → Bool × List Walk
  | [], made => (true, made)
  | c :: up, made =>
    let dir : Walk := ⟨rooted, (c :: up).reverse⟩
    match fs.mkdir made dir with
    | .made => (true, dir :: made)
    | .failed => (fs.isDir made dir, made)
    | .notFound =>
      let r := createDirAll fs rooted up made
      if r.1 then
        match fs.mkdir r.2 dir with
        | .made => (true, dir :: r.2)
        | .notFound | .failed => (fs.isDir r.2 dir, r.2)
      else r

/-- The parent of the path is made if there is one and it is not there. -/
def makeParent (fs : SaveAnswers) (path : List Char) : Bool × List Walk :=
  match (parts path).reverse with
  | [] => (true, [])
  | _ :: up =>
    if fs.parentExists ⟨isAbsolute path, up.reverse⟩ then (true, [])
    else createDirAll fs (isAbsolute path) up []

namespace UploadedFile

variable (fs : SaveAnswers) (file : UploadedFile)

def save (path : List Char) (overwrite : Bool) : Saving :=
  if fs.pathExists path && !overwrite then
    ⟨.error (.fileExists ("File already exists: " ++ String.ofList path)), [], none⟩
  else
    let r := makeParent fs path
    if !r.1 then ⟨.error .io, r.2, none⟩
    else if !fs.create path then ⟨.error .io, r.2, none⟩
    else if !fs.writeAll path file.content then ⟨.error .io, r.2, some path⟩
    else ⟨.ok path, r.2, some path⟩

def saveTo (directory : List Char) : Saving :=
  file.save fs (join directory file.filename.toList) false

/-- Whatever the directory is, and whatever is there: no file outside it is written to, and no directory
made outside it but those on the way to it. -/
def SavesInside : Prop :=
  ∀ (fs : SaveAnswers) (directory : List Char),
    (∀ path, (file.saveTo fs directory).written = some path → LiesIn directory path) ∧
      ∀ dir ∈ (file.saveTo fs directory).made, dir.LiesIn directory ∨ dir.OnWay directory

/-- Where a file name leads to: the directories on its way, unless there is a zero character among
their names, and the file itself if it can be one. -/
def steps (name : List Char) : List (List (List Char)) :=
  (if hasZero (parts name).dropLast then [] else (parts name).dropLast.inits.filter endsInName) ++
    if creatable name then [parts name] else []

/-- The name leads nowhere; or it is relative, and not out of the directory that it starts in. -/
def Harmless : Prop :=
  steps file.filename.toList = [] ∨
    isAbsolute file.filename.toList = false ∧
      ∀ step ∈ steps file.filename.toList, staysBelow 0 step = true

instance : Decidable file.Harmless := inferInstanceAs (Decidable (_ ∨ _ ∧ _))

variable {fs file}

theorem save_written {path path' : List Char} {overwrite : Bool}
    (h : (file.save fs path overwrite).written = some path') :
    path' = path ∧ fs.create path = true := by
  unfold save at h
  dsimp only at h
  split_ifs at h with _ _ hcreate _
  · exact ⟨(Option.some.inj h).symm, by simpa using hcreate⟩
  · exact ⟨(Option.some.inj h).symm, by simpa using hcreate⟩

theorem save_made {path : List Char} {overwrite : Bool} {dir : Walk}
    (h : dir ∈ (file.save fs path overwrite).made) : dir ∈ (makeParent fs path).2 := by
  unfold save at h
  dsimp only at h
  split_ifs at h
  · cases h
  · exact h
  · exact h
  · exact h
  · exact h

end UploadedFile

/-! ## Names that files can have -/

theorem getLast?_components_join {a b : List Char} (hb : isAbsolute b = false) :
    (components (join a b)).getLast? = (components b).getLast? := by
  have hsplit (a' : List Char) : (components (a' ++ '/' :: b)).getLast? =
      (components b).getLast? := by
    rw [components, List.splitOn_append_cons_self]
    exact List.getLast?_append_of_ne_nil _ (List.splitOn_ne_nil _ _)
  unfold join
  rw [hb, if_neg Bool.false_ne_true]
  split_ifs with h
  · obtain rfl | hlast := h
    · rfl
    · obtain ⟨a', rfl⟩ := List.getLast?_eq_some_iff.mp hlast
      rw [List.append_assoc, List.singleton_append, hsplit]
  · exact hsplit a

theorem mem_join_iff {a b : List Char} {c : Char} (hb : isAbsolute b = false) (hc : c ≠ '/') :
    c ∈ join a b ↔ c ∈ a ∨ c ∈ b := by
  unfold join
  rw [hb, if_neg Bool.false_ne_true]
  split_ifs
  · exact List.mem_append
  · rw [List.mem_append, List.mem_cons, or_iff_right hc]

theorem creatable_join_iff {d p : List Char} : creatable (join d p) = true ↔
    creatable p = true ∧ (isAbsolute p = true ∨ Char.ofNat 0 ∉ d) := by
  by_cases habsolute : isAbsolute p = true
  · rw [join, if_pos habsolute]
    exact (and_iff_left (.inl habsolute)).symm
  · have hrelative := Bool.eq_false_iff.mpr habsolute
    have hzero := @mem_join_iff d p (Char.ofNat 0) hrelative (by decide)
    unfold creatable
    rw [getLast?_components_join hrelative, or_iff_right habsolute]
    simp only [Bool.and_eq_true, Bool.not_eq_true', ← Bool.not_eq_true, List.contains_iff_mem,
      hzero]
    tauto

/-! ## Directories that are made -/

theorem hasZero_append (a b : List (List Char)) : hasZero (a ++ b) = (hasZero a || hasZero b) :=
  List.any_append

theorem hasZero_of_leading {a b : List (List Char)} (h : a <+: b) (hb : hasZero b = false) :
    hasZero a = false := by
  obtain ⟨c, rfl⟩ := h
  rw [hasZero_append, Bool.or_eq_false_iff] at hb
  exact hb.1

theorem reverse_eq_dropLast {l up : List (List Char)} {last : List Char}
    (h : l.reverse = last :: up) : up.reverse = l.dropLast := by
  rw [← List.reverse_reverse l, h, List.reverse_cons, List.dropLast_concat]

section

variable {fs : SaveAnswers} {rooted : Bool} {up : List (List Char)} {made : List Walk} {dir : Walk}

/-- Only directories on the way to the path are made, and none whose way ends in `..`. -/
theorem mem_createDirAll (h : dir ∈ (createDirAll fs rooted up made).2) :
    dir ∈ made ∨ dir.rooted = rooted ∧ dir.parts <+: up.reverse ∧ endsInName dir.parts = true := by
  induction up with
  | nil => exact .inl h
  | cons c up ih =>
    have hrec : dir ∈ (createDirAll fs rooted up made).2 → dir ∈ made ∨
        dir.rooted = rooted ∧ dir.parts <+: (c :: up).reverse ∧ endsInName dir.parts = true := by
      intro h
      refine (ih h).imp_right fun ⟨hrooted, hleading, hnamed⟩ =>
        ⟨hrooted, hleading.trans ?_, hnamed⟩
      rw [List.reverse_cons]
      exact List.prefix_append _ _
    unfold createDirAll at h
    dsimp only at h
    cases hfirst : fs.mkdir made ⟨rooted, (c :: up).reverse⟩ with
    | made =>
      rw [hfirst] at h
      rcases List.mem_cons.mp h with rfl | h
      · exact .inr ⟨rfl, List.prefix_refl _, fs.mkdir_named _ _ hfirst⟩
      · exact .inl h
    | failed =>
      rw [hfirst] at h
      exact .inl h
    -- the directories above come first, and then this one is tried again
    | notFound =>
      rw [hfirst] at h
      dsimp only at h
      split_ifs at h
      · cases hsecond : fs.mkdir (createDirAll fs rooted up made).2 ⟨rooted, (c :: up).reverse⟩ with
        | made =>
          rw [hsecond] at h
          rcases List.mem_cons.mp h with rfl | h
          · exact .inr ⟨rfl, List.prefix_refl _, fs.mkdir_named _ _ hsecond⟩
          · exact hrec h
        | failed | notFound =>
          rw [hsecond] at h
          exact hrec h
      · exact hrec h

theorem createDirAll_zero (h : hasZero up.reverse = true) :
    createDirAll fs rooted up made = (false, made) := by
  cases up with
  | nil => cases h
  | cons c up =>
    obtain ⟨hfailed, hdir⟩ := fs.mkdir_zero made ⟨rooted, (c :: up).reverse⟩ h
    unfold createDirAll
    dsimp only
    rw [hfailed]
    dsimp only
    rw [hdir]

theorem mem_makeParent {path : List Char} (h : dir ∈ (makeParent fs path).2) :
    dir.rooted = isAbsolute path ∧ dir.parts <+: (parts path).dropLast ∧ endsInName dir.parts = true ∧
      hasZero (parts path).dropLast = false := by
  unfold makeParent at h
  cases hparts : (parts path).reverse with
  | nil =>
    rw [hparts] at h
    cases h
  | cons last up =>
    have hup := reverse_eq_dropLast hparts
    rw [hparts] at h
    dsimp only at h
    split_ifs at h
    · cases h
    · cases hzero : hasZero up.reverse with
      | true =>
        rw [createDirAll_zero hzero] at h
        cases h
      | false =>
        obtain ⟨hrooted, hleading, hnamed⟩ := (mem_createDirAll h).resolve_left List.not_mem_nil
        exact ⟨hrooted, hup ▸ hleading, hnamed, hup ▸ hzero⟩

end

/-- A file system with nothing but the root, which lets every directory and every file be made. -/
def emptyDisk : SaveAnswers where
  pathExists := fun _ => false
  parentExists := fun dir => dir.parts.isEmpty
  mkdir := fun _ dir =>
    if hasZero dir.parts then .failed else if endsInName dir.parts then .made else .notFound
  isDir := fun _ dir => !hasZero dir.parts
  create := creatable
  writeAll := fun _ _ => true
  create_creatable := fun _ hcreate => hcreate
  mkdir_named := by
    intro made dir h
    split_ifs at h with _ hnamed
    exact hnamed
  mkdir_zero := by
    intro made dir h
    rw [if_pos h, h]
    exact ⟨rfl, rfl⟩

section

variable {rooted : Bool} {up : List (List Char)} {made : List Walk} {dir : Walk}

theorem emptyDisk_mkdir (h : hasZero dir.parts = false) (made : List Walk) :
    emptyDisk.mkdir made dir = if endsInName dir.parts then .made else .notFound :=
  if_neg (by rw [h]; exact Bool.false_ne_true)

theorem emptyDisk_isDir (h : hasZero dir.parts = false) (made : List Walk) :
    emptyDisk.isDir made dir = true := by
  change (!hasZero dir.parts) = true
  rw [h]
  rfl

theorem not_endsInName_nil {cs : List (List Char)} (h : cs <+: []) : ¬ endsInName cs = true := by
  rw [List.prefix_nil.mp h]
  exact Bool.false_ne_true

/-- On the empty disk the whole way is made, up to what comes after its last name. -/
theorem createDirAll_emptyDisk (hzero : hasZero up.reverse = false) :
    (createDirAll emptyDisk rooted up made).1 = true ∧
      ∀ cs, cs <+: up.reverse → endsInName cs = true →
        ∃ cs', cs <+: cs' ∧ cs' <+: up.reverse ∧
          ⟨rooted, cs'⟩ ∈ (createDirAll emptyDisk rooted up made).2 := by
  induction up with
  | nil =>
    exact ⟨rfl, fun cs hcs hnamed => absurd hnamed (not_endsInName_nil hcs)⟩
  | cons c up ih =>
    have hup : up.reverse <+: (c :: up).reverse := List.reverse_cons ▸ List.prefix_append _ _
    obtain ⟨hready, hmade⟩ := ih (hasZero_of_leading hup hzero)
    have hmkdir := @emptyDisk_mkdir ⟨rooted, (c :: up).reverse⟩ hzero
    unfold createDirAll
    dsimp only
    cases hnamed : endsInName (c :: up).reverse with
    | true =>
      simp only [hnamed, if_true] at hmkdir
      rw [hmkdir]
      exact ⟨rfl, fun cs hcs _ => ⟨_, hcs, List.prefix_refl _, List.mem_cons_self⟩⟩
    | false =>
      simp only [hnamed, Bool.false_eq_true, if_false] at hmkdir
      rw [hmkdir]
      dsimp only
      rw [if_pos hready, hmkdir]
      refine ⟨emptyDisk_isDir hzero (createDirAll emptyDisk rooted up made).2, fun cs hcs hname => ?_⟩
      rw [List.reverse_cons] at hcs hnamed
      -- the way ends in `..` here, so what ends in a name is a part of the way up to there
      rcases List.prefix_concat_iff.mp hcs with rfl | hcs
      · rw [hnamed] at hname
        cases hname
      · obtain ⟨cs', hle, hleading, hmem⟩ := hmade cs hcs hname
        exact ⟨cs', hle, hleading.trans hup, hmem⟩

theorem makeParent_emptyDisk {path : List Char} (hzero : hasZero (parts path).dropLast = false) :
    (makeParent emptyDisk path).1 = true ∧
      ∀ cs, cs <+: (parts path).dropLast → endsInName cs = true →
        ∃ cs', cs <+: cs' ∧ cs' <+: (parts path).dropLast ∧
          ⟨isAbsolute path, cs'⟩ ∈ (makeParent emptyDisk path).2 := by
  unfold makeParent
  cases hparts : (parts path).reverse with
  | nil =>
    rw [List.reverse_eq_nil_iff.mp hparts]
    exact ⟨rfl, fun cs hcs hnamed => absurd hnamed (not_endsInName_nil hcs)⟩
  | cons last up =>
    rw [← reverse_eq_dropLast hparts] at hzero ⊢
    dsimp only
    split_ifs with hroot
    · have hempty : up.reverse = [] := List.isEmpty_iff.mp hroot
      rw [hempty]
      exact ⟨rfl, fun cs hcs hnamed => absurd hnamed (not_endsInName_nil hcs)⟩
    · exact createDirAll_emptyDisk hzero

end

/-! ## Names and where they lead -/

theorem hasZero_parts {p : List Char} (h : Char.ofNat 0 ∉ p) : hasZero (parts p) = false := by
  unfold hasZero parts
  rw [List.any_eq_false]
  intro c hc hzero
  have hcomponent := (List.mem_filter.mp hc).1
  exact h ((infix_of_mem_components hcomponent).subset (List.contains_iff_mem.mp hzero))

theorem endsInName_append {a b : List (List Char)} (hb : b ≠ []) :
    endsInName (a ++ b) = endsInName b := by
  unfold endsInName
  rw [List.getLast?_append_of_ne_nil _ hb]

theorem ne_nil_of_endsInName {cs : List (List Char)} (h : endsInName cs = true) : cs ≠ [] := by
  rintro rfl
  cases h

theorem zero_notMem_of_creatable {p : List Char} (h : creatable p = true) : Char.ofNat 0 ∉ p := by
  unfold creatable at h
  rw [Bool.and_eq_true] at h
  simpa using h.1

namespace UploadedFile

theorem mem_steps {name : List Char} {step : List (List Char)} : step ∈ steps name ↔
    (step <+: (parts name).dropLast ∧ endsInName step = true ∧
      hasZero (parts name).dropLast = false) ∨
      creatable name = true ∧ step = parts name := by
  unfold steps
  rw [List.mem_append]
  refine or_congr ?_ ?_
  · cases hasZero (parts name).dropLast with
    | true => exact iff_of_false (by simp) fun h => Bool.noConfusion h.2.2
    | false => simp [List.mem_filter, List.mem_inits]
  · cases creatable name with
    | true => simp
    | false => exact iff_of_false (by simp) fun h => Bool.noConfusion h.1

/-! ## A directory that nothing leads into -/

variable {name : List Char}

/-- The name of the directory below the root that is longer than the file's. -/
def freshName (name : List Char) : List Char := List.replicate (name.length + 3) 'a'

theorem freshName_notMem {cs : List (List Char)} (h : cs ⊆ parts name) : freshName name ∉ cs :=
  fun hmem => not_mem_components_freshDir name (List.mem_filter.mp (h hmem)).1

theorem outside_of_absolute {cs : List (List Char)} (hcs : cs ≠ []) (hsub : cs ⊆ parts name) :
    ¬ ((⟨true, cs⟩ : Walk).LiesIn (freshDir name) ∨ (⟨true, cs⟩ : Walk).OnWay (freshDir name)) := by
  have hfresh := freshName_notMem hsub
  rintro (⟨-, -, hleading⟩ | ⟨-, hleading⟩)
  · rw [ofPath_freshDir] at hleading
    rcases Lexical.mem_names_resolve (hleading.subset (List.mem_singleton_self _)) with hempty | hmem
    · cases hempty
    · exact hfresh hmem
  · rw [parts_freshDir] at hleading
    obtain ⟨c, rest, rfl⟩ := List.exists_cons_of_ne_nil hcs
    obtain ⟨rfl, -⟩ := List.cons_prefix_cons.mp hleading
    exact hfresh List.mem_cons_self

theorem outside_of_leaving {cs : List (List Char)} (hleaves : staysBelow 0 cs = false)
    (hsub : cs ⊆ parts name) :
    ¬ ((⟨true, freshName name :: cs⟩ : Walk).LiesIn (freshDir name) ∨
      (⟨true, freshName name :: cs⟩ : Walk).OnWay (freshDir name)) := by
  rintro (hbelow | ⟨-, hleading⟩)
  · unfold Walk.LiesIn at hbelow
    rw [ofPath_freshDir] at hbelow
    exact @Lexical.not_below_resolve _ _ (freshName_notMem hsub) true 0 [] hleaves hbelow
  · rw [parts_freshDir] at hleading
    obtain ⟨-, hnil⟩ := List.cons_prefix_cons.mp hleading
    rw [List.prefix_nil.mp hnil] at hleaves
    cases hleaves

end UploadedFile

/-! ## Files that are saved inside -/

namespace UploadedFile

variable {file : UploadedFile}

theorem written_emptyDisk {path : List Char} (h : creatable path = true) :
    (file.save emptyDisk path false).written = some path := by
  have hzero := hasZero_of_leading (List.dropLast_prefix _)
    (hasZero_parts (zero_notMem_of_creatable h))
  have hready := (makeParent_emptyDisk hzero).1
  have hcreate : emptyDisk.create path = true := h
  unfold save
  dsimp only
  rw [hready, hcreate]
  rfl

theorem made_emptyDisk (path : List Char) :
    (file.save emptyDisk path false).made = (makeParent emptyDisk path).2 := by
  unfold save
  dsimp only
  rw [if_neg (by simp [emptyDisk])]
  split_ifs <;> rfl

theorem exists_step_of_not_harmless (h : ¬ file.Harmless) :
    ∃ step ∈ steps file.filename.toList,
      isAbsolute file.filename.toList = true ∨ staysBelow 0 step = false := by
  unfold Harmless at h
  push Not at h
  obtain ⟨hsome, hleaves⟩ := h
  cases habsolute : isAbsolute file.filename.toList with
  | true =>
    obtain ⟨step, hstep⟩ := List.exists_mem_of_ne_nil _ hsome
    exact ⟨step, hstep, .inl rfl⟩
  | false =>
    obtain ⟨step, hstep, hnot⟩ := hleaves habsolute
    exact ⟨step, hstep, .inr (Bool.eq_false_iff.mpr hnot)⟩

/-- A directory that is made on the way to a harmful name is not inside the fresh one. -/
theorem escapes_of_directory {name : List Char} {step : List (List Char)}
    (hleading : step <+: (parts name).dropLast) (hnamed : endsInName step = true)
    (hzero : hasZero (parts name).dropLast = false)
    (hleaves : isAbsolute name = true ∨ staysBelow 0 step = false) :
    ∃ dir ∈ (makeParent emptyDisk (join (freshDir name) name)).2,
      ¬ (dir.LiesIn (freshDir name) ∨ dir.OnWay (freshDir name)) := by
  cases habsolute : isAbsolute name with
  | true =>
    -- an absolute name takes the place of the fresh directory
    have hjoin : join (freshDir name) name = name := if_pos habsolute
    rw [hjoin]
    obtain ⟨cs, hle, hcs, hmade⟩ := (makeParent_emptyDisk hzero).2 step hleading hnamed
    have hne : cs ≠ [] := fun hnil => ne_nil_of_endsInName hnamed (List.prefix_nil.mp (hnil ▸ hle))
    rw [habsolute] at hmade
    have hsub := List.Subset.trans hcs.subset (List.dropLast_subset _)
    exact ⟨_, hmade, outside_of_absolute hne hsub⟩
  | false =>
    have hleaves := hleaves.resolve_left (by rw [habsolute]; exact Bool.false_ne_true)
    have hne : parts name ≠ [] := by
      intro hnil
      rw [hnil] at hleading
      exact ne_nil_of_endsInName hnamed (List.prefix_nil.mp hleading)
    have hparts : (parts (join (freshDir name) name)).dropLast =
        freshName name :: (parts name).dropLast := by
      rw [parts_join _ habsolute, parts_freshDir, List.dropLast_append_of_ne_nil hne]
      rfl
    have hfresh : hasZero [freshName name] = false := by
      have hnot : Char.ofNat 0 ∉ freshName name := fun hmem =>
        absurd (List.eq_of_mem_replicate hmem) (by decide)
      simpa [hasZero] using hnot
    have hzero' : hasZero (parts (join (freshDir name) name)).dropLast = false := by
      rw [hparts, ← List.singleton_append, hasZero_append, hfresh, hzero]
      rfl
    -- the way starts in the fresh directory and climbs out of it, and nothing leads back in
    have hway : freshName name :: step <+: (parts (join (freshDir name) name)).dropLast :=
      hparts ▸ List.cons_prefix_cons.mpr ⟨rfl, hleading⟩
    have hname : endsInName (freshName name :: step) = true :=
      (endsInName_append (a := [freshName name]) (ne_nil_of_endsInName hnamed)).trans hnamed
    obtain ⟨cs, hle, hcs, hmade⟩ := (makeParent_emptyDisk hzero').2 _ hway hname
    obtain ⟨rest, rfl⟩ := hle
    rw [hparts, List.cons_append, List.cons_prefix_cons] at hcs
    have hfurther : staysBelow 0 (step ++ rest) = false :=
      Bool.eq_false_iff.mpr fun hstays => by
        rw [staysBelow_of_append hstays] at hleaves
        cases hleaves
    rw [isAbsolute_join rfl] at hmade
    exact ⟨_, hmade, outside_of_leaving hfurther
      (List.Subset.trans hcs.2.subset (List.dropLast_subset _))⟩

/-- The file itself is not inside the fresh directory. -/
theorem escapes_of_file {name : List Char} (hname : creatable name = true)
    (hleaves : isAbsolute name = true ∨ staysBelow 0 (parts name) = false) :
    creatable (join (freshDir name) name) = true ∧
      ¬ LiesIn (freshDir name) (join (freshDir name) name) := by
  have hzero : Char.ofNat 0 ∉ freshDir name := by
    intro hmem
    rcases List.mem_cons.mp hmem with hslash | hmem
    · exact absurd hslash (by decide)
    · exact absurd (List.eq_of_mem_replicate hmem) (by decide)
  rw [parts, staysBelow_parts] at hleaves
  exact ⟨creatable_join_iff.mpr ⟨hname, .inr hzero⟩, not_liesIn_freshDir hleaves⟩

theorem harmless_of_savesInside (h : file.SavesInside) : file.Harmless := by
  by_contra hharmful
  obtain ⟨step, hstep, hleaves⟩ := exists_step_of_not_harmless hharmful
  obtain ⟨hwritten, hmade⟩ := h emptyDisk (freshDir file.filename.toList)
  rcases mem_steps.mp hstep with ⟨hleading, hnamed, hzero⟩ | ⟨hname, rfl⟩
  · obtain ⟨dir, hdir, houtside⟩ := escapes_of_directory hleading hnamed hzero hleaves
    refine houtside (hmade dir ?_)
    rw [saveTo, made_emptyDisk]
    exact hdir
  · obtain ⟨hcreate, houtside⟩ := escapes_of_file hname hleaves
    exact houtside (hwritten _ (written_emptyDisk hcreate))

theorem Harmless.stays (h : file.Harmless) {step : List (List Char)}
    (hstep : step ∈ steps file.filename.toList) :
    isAbsolute file.filename.toList = false ∧ staysBelow 0 step = true := by
  rcases h with hnone | ⟨hrelative, hstays⟩
  · rw [hnone] at hstep
    cases hstep
  · exact ⟨hrelative, hstays step hstep⟩

/-- What is made on the way to a relative name is on the way to the directory, or a step below it. -/
theorem inside_of_leading {directory name : List Char} (hrelative : isAbsolute name = false)
    {dir : Walk} (hrooted : dir.rooted = isAbsolute directory)
    (hleading : dir.parts <+: (parts (join directory name)).dropLast)
    (hstays : ∀ step, step <+: (parts name).dropLast → step ≠ [] →
      dir.parts = parts directory ++ step → staysBelow 0 step = true) :
    dir.LiesIn directory ∨ dir.OnWay directory := by
  rw [parts_join directory hrelative] at hleading
  by_cases hname : parts name = []
  · rw [hname, List.append_nil] at hleading
    exact .inr ⟨hrooted, hleading.trans (List.dropLast_prefix _)⟩
  · rw [List.dropLast_append_of_ne_nil hname] at hleading
    rcases List.prefix_or_prefix_of_prefix hleading (List.prefix_append _ _) with hway | ⟨step, hstep⟩
    · exact .inr ⟨hrooted, hway⟩
    · rw [← hstep, List.prefix_append_right_inj] at hleading
      by_cases hne : step = []
      · rw [hne, List.append_nil] at hstep
        exact .inr ⟨hrooted, hstep ▸ List.prefix_refl _⟩
      · have hbelow := @Lexical.below_resolve (.ofPath directory) step []
          (hstays step hleading hne hstep.symm)
        rw [List.append_nil] at hbelow
        left
        unfold Walk.LiesIn Walk.lexical
        rw [← hstep, hrooted, Lexical.resolve, List.foldl_append]
        rw [ofPath_eq_resolve] at hbelow ⊢
        exact hbelow

theorem savesInside_of_harmless (h : file.Harmless) : file.SavesInside := by
  intro fs directory
  constructor
  · intro path hwritten
    obtain ⟨rfl, hcreate⟩ := save_written hwritten
    have hname := (creatable_join_iff.mp (fs.create_creatable _ hcreate)).1
    obtain ⟨hrelative, hstays⟩ := h.stays (mem_steps.mpr (.inr ⟨hname, rfl⟩))
    rw [parts, staysBelow_parts] at hstays
    exact liesIn_join directory hrelative hstays
  · intro dir hdir
    obtain ⟨hrooted, hleading, hnamed, hzero⟩ := mem_makeParent (save_made hdir)
    cases habsolute : isAbsolute file.filename.toList with
    | true =>
      have hjoin : join directory file.filename.toList = file.filename.toList := if_pos habsolute
      rw [hjoin] at hleading hzero
      -- a directory on the way of an absolute name is a step, so the name has to be relative
      have hrelative := (h.stays (mem_steps.mpr (.inl ⟨hleading, hnamed, hzero⟩))).1
      rw [habsolute] at hrelative
      cases hrelative
    | false =>
      rw [isAbsolute_join_relative habsolute] at hrooted
      refine inside_of_leading habsolute hrooted hleading fun step hstep hne hdirectory => ?_
      rw [hdirectory, endsInName_append hne] at hnamed
      refine (h.stays (mem_steps.mpr (.inl ⟨hstep, hnamed, ?_⟩))).2
      have hparts : parts file.filename.toList ≠ [] := by
        intro hnil
        rw [hnil] at hstep
        exact hne (List.prefix_nil.mp hstep)
      rw [parts_join directory habsolute, List.dropLast_append_of_ne_nil hparts, hasZero_append,
        Bool.or_eq_false_iff] at hzero
      exact hzero.2

theorem savesInside_iff_harmless : file.SavesInside ↔ file.Harmless :=
  ⟨harmless_of_savesInside, savesInside_of_harmless⟩

end UploadedFile

example : ¬ (UploadedFile.new "doc" "../evil/.." "" []).Harmless ∧
    ¬ (UploadedFile.new "doc" "/etc/evil/x/" "" []).Harmless := by decide +kernel

/-- The files of a form. -/
def FormData.Holds (form : FormData) (file : UploadedFile) : Prop :=
  ∃ name files, form.files.lookup name = some files ∧ file ∈ files

/-- The files of a request are saved in their directory exactly when their names are harmless. -/
theorem uploads_inside_iff (unicode : String → String) (body : List UInt8) (boundary : String) :
    (∀ file, (parseMultipart unicode body boundary).Holds file → file.SavesInside) ↔
      ∀ file, (parseMultipart unicode body boundary).Holds file → file.Harmless :=
  forall₂_congr fun _ _ => UploadedFile.savesInside_iff_harmless

/-- A file that is to be saved next to the directory. -/
def climbingFile : FilePart := ⟨"doc", "../x", "text/plain", []⟩

theorem climbing_file_escapes :
    ¬ ∀ (unicode : String → String) (body : List UInt8) (boundary : String) (file : UploadedFile),
      (parseMultipart unicode body boundary).Holds file → file.SavesInside := by
  intro h
  have hclean : climbingFile.sent.Clean :=
    FilePart.sent_clean (by decide) (by decide) (by decide)
  have hfile := (@FilePart.parse_files "X" [climbingFile] id (by decide)
    (List.forall_mem_singleton.mpr hclean)
    (List.forall_mem_singleton.mpr (by decide +kernel))).2 "doc"
  have hinside := h id _ "X" climbingFile.stored ⟨"doc", _, hfile, List.mem_singleton_self _⟩
  exact absurd (UploadedFile.savesInside_iff_harmless.mp hinside) (by decide +kernel)

end Hypern.Http
