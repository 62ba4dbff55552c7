import Hypern.Lib.Ascii
import Hypern.Lib.Words
import Hypern.Routing.FullPath

/-! The names of a route's path parameters, as the pattern for `matchit`, `Route.get_path_params`
and the two regular expressions of `openapi.py` have them. -/

namespace Hypern.Routing

open Lib

/-! ## The pattern -/

/-- `ReadMode` with the name that is being read. -/
inductive NameMode
  | text | opened | closing
  | named (name : List Char)

/-- The names that a pattern binds; that of a catch-all is without its star. -/
def readNames : List Char → NameMode → Option (List (List Char))
  | [], .text => some []
  | [], _ => none
  | c :: cs, .text =>
    if c = '\x7b' then readNames cs .opened
    else if c = '\x7d' then readNames cs .closing
    else readNames cs .text
  | c :: cs, .closing => if c = '\x7d' then readNames cs .text else none
  | c :: cs, .opened =>
    if c = '\x7b' then readNames cs .text
    else if c = '\x7d' then none
    else readNames cs (.named (if c = '*' then [] else [c]))
  | c :: cs, .named name =>
    if c = '\x7d' then (readNames cs .text).map (name :: ·)
    else readNames cs (.named (name ++ [c]))

def patternNames (pattern : String) : List (List Char) :=
  (readNames pattern.toList .text).getD []

/-! ## The route -/

def getPathParams (path : String) : List (List Char) :=
  ((path.toList.splitOn '/').filter (·.head? == some ':')).map (·.drop 1)

/-! ## The regular expression `:(\w+)` -/

section

variable (unicode : Char → Bool)

/-- `\w`; `unicode` decides beyond ASCII. -/
def isWordChar (c : Char) : Bool :=
  if c.toNat < 128 then c.isAlphanum || c == '_' else unicode c

/-- What the expression leaves alone, and what it captures. -/
inductive Piece
  | text (c : Char)
  | capture (name : List Char)

def flush : List Char → Piece
  | [] => .text ':'
  | name => .capture name

/-- The matches from the left; `some name` stands behind a colon and the word characters `name`. -/
def scan : Option (List Char) → List Char → List Piece
  | none, [] => []
  | some name, [] => [flush name]
  | none, c :: cs => if c = ':' then scan (some []) cs else .text c :: scan none cs
  | some name, c :: cs =>
    if isWordChar unicode c then scan (some (name ++ [c])) cs
    else flush name :: if c = ':' then scan (some []) cs else .text c :: scan none cs

def Piece.name? : Piece → Option (List Char)
  | .text _ => none
  | .capture name => some name

/-- `{\1}` -/
def Piece.render : Piece → List Char
  | .text c => [c]
  | .capture name => '\x7b' :: (name ++ ['\x7d'])

/-- `re.findall(r":(\w+)", path)` of `endpoint_from_route`. -/
def pathParams (path : String) : List (List Char) :=
  (scan unicode none path.toList).filterMap Piece.name?

/-- `re.sub(r":(\w+)", r"{\1}", endpoint.path)` of `generate`. -/
def openapiPath (path : String) : String :=
  String.ofList ((scan unicode none path.toList).flatMap Piece.render)

end

/-- The texts between braces; `some name` stands behind an opening brace and `name`. -/
def braced : Option (List Char) → List Char → List (List Char)
  | _, [] => []
  | name, c :: cs =>
    if c = '\x7b' then braced (some []) cs
    else if c = '\x7d' then name.toList ++ braced none cs
    else braced (name.map (· ++ [c])) cs

/-- The parameters that a path template mentions, segment by segment. -/
def mentioned (template : String) : List (List Char) :=
  (template.toList.splitOn '/').flatMap (braced none)

variable {T F : Type}

/-- The four lists of names are one list. -/
structure NamesAgree (unicode : Char → Bool) (s : RouteStore T F) (r : Route F) : Prop where
  bound : patternNames (s.pattern r) = getPathParams r.path
  declared : pathParams unicode r.path = getPathParams r.path
  template : mentioned (openapiPath unicode r.path) = getPathParams r.path

/-! ## Plain segments -/

variable {unicode : Char → Bool} {c d : Char} {cs part w : List Char} {names : List (List Char)}

/-- Read on its own, the segment has no parameter. -/
def BindsNothing (segment : List Char) : Prop :=
  readNames (convertFrom segment .literal) .text = some []

instance (segment : List Char) : Decidable (BindsNothing segment) := by
  unfold BindsNothing
  infer_instance

/-- No opening brace stands before a closing one. -/
def Unpaired (cs : List Char) : Prop := cs.Pairwise fun c d => c = '\x7b' → d ≠ '\x7d'

instance (cs : List Char) : Decidable (Unpaired cs) := by
  unfold Unpaired
  infer_instance

/-- A colon and a word; or no colon, no star and no braces but doubled ones that enclose nothing. -/
def NamePart (unicode : Char → Bool) (part : List Char) : Prop :=
  (∃ w, IsWord (isWordChar unicode · = true) w ∧ part = ':' :: w) ∨
    (':' ∉ part ∧ '*' ∉ part) ∧ Unpaired part ∧ BindsNothing part

/-! ## Reading a pattern -/

/-- Both readers stand at the same place. -/
inductive SameMode : NameMode → ReadMode → Prop
  | text : SameMode .text .text
  | opened : SameMode .opened .opened
  | closing : SameMode .closing .closing
  | named (name : List Char) (catchAll : Bool) : SameMode (.named name) (.named catchAll)

theorem isSome_readNames {mode : NameMode} {mode' : ReadMode} (h : SameMode mode mode') :
    (readNames cs mode).isSome = (readTokens cs mode').isSome := by
  induction cs generalizing mode mode' with
  | nil => cases h <;> rfl
  | cons c cs ih =>
    have htext := ih .text
    cases h with
    | text =>
      unfold readNames readTokens
      split_ifs
      · exact ih .opened
      · exact ih .closing
      · rwa [Option.isSome_map]
    | opened =>
      unfold readNames readTokens
      split_ifs
      · rwa [Option.isSome_map]
      · rfl
      all_goals exact ih (.named _ _)
    | closing =>
      unfold readNames readTokens
      split_ifs
      · rwa [Option.isSome_map]
      · rfl
    | named name catchAll =>
      unfold readNames readTokens
      split_ifs
      · rwa [Option.isSome_map, Option.isSome_map]
      · rwa [Option.isSome_map, Option.isSome_map]
      · exact ih (.named _ _)

/-- The name that is being read comes first. -/
theorem readNames_named {name : List Char} (h : readNames cs (.named name) = some names) :
    ∃ rest tail, names = (name ++ rest) :: tail := by
  induction cs generalizing name with
  | nil => cases h
  | cons c cs ih =>
    unfold readNames at h
    split_ifs at h with hclose
    · obtain ⟨tail, -, rfl⟩ := Option.map_eq_some_iff.mp h
      exact ⟨[], tail, by rw [List.append_nil]⟩
    · obtain ⟨rest, tail, rfl⟩ := ih h
      exact ⟨c :: rest, tail, by simp⟩

theorem readNames_stray {name : List Char} (hslash : '/' ∈ name)
    (h : ∀ name ∈ names, '/' ∉ name) : readNames cs (.named name) ≠ some names := by
  intro hread
  obtain ⟨rest, tail, rfl⟩ := readNames_named hread
  exact h _ List.mem_cons_self (List.mem_append_left _ hslash)

/-- Names within segments do not reach over a slash. -/
theorem readNames_append_slash (rest : List Char) {mode : NameMode}
    (h : ∀ name ∈ names, '/' ∉ name) :
    readNames (cs ++ '/' :: rest) mode = some names ↔
      ∃ before behind, readNames cs mode = some before ∧ readNames rest .text = some behind ∧
        before ++ behind = names := by
  induction cs generalizing mode names with
  | nil =>
    cases mode with
    | text => simp [readNames]
    | opened => simpa [readNames] using readNames_stray (List.mem_singleton_self '/') h
    | closing => simp [readNames]
    | named name => simpa [readNames] using readNames_stray (by simp) h
  | cons c cs ih =>
    cases mode with
    | text =>
      simp only [List.cons_append, readNames]
      split_ifs <;> exact ih h
    | opened =>
      simp only [List.cons_append, readNames]
      split_ifs
      · exact ih h
      · simp
      all_goals exact ih h
    | closing =>
      simp only [List.cons_append, readNames]
      split_ifs
      · exact ih h
      · simp
    | named name =>
      simp only [List.cons_append, readNames]
      split_ifs
      · -- the name ends here, and the others are read from the text behind it
        cases names with
        | nil => simp
        | cons head tail =>
          have htail := @ih tail .text (List.forall_mem_cons.mp h).2
          simp only [Option.map_eq_some_iff, List.cons.injEq]
          constructor
          · rintro ⟨_, hread, rfl, rfl⟩
            obtain ⟨before, behind, hbefore, hbehind, rfl⟩ := htail.mp hread
            exact ⟨name :: before, behind, ⟨before, hbefore, rfl⟩, hbehind, rfl⟩
          · rintro ⟨_, behind, ⟨before, hbefore, rfl⟩, hbehind, hnames⟩
            obtain ⟨rfl, rfl⟩ := List.cons.inj hnames
            exact ⟨_, htail.mpr ⟨before, behind, hbefore, hbehind, rfl⟩, rfl, rfl⟩
      · exact ih h

theorem convertFrom_append_slash (cs rest : List Char) (mode : PathMode) :
    convertFrom (cs ++ '/' :: rest) mode = convertFrom cs mode ++ '/' :: convertFrom rest .literal := by
  induction cs generalizing mode with
  | nil => cases mode <;> rfl
  | cons c cs ih =>
    cases mode <;> simp only [List.cons_append, convertFrom, ih] <;> split_ifs <;> rfl

/-- The names that a segment binds on its own. -/
def segmentNames (segment : List Char) : Option (List (List Char)) :=
  readNames (convertFrom segment .literal) .text

def boundNames (segment : List Char) : List (List Char) := (segmentNames segment).getD []

/-- Each segment can be read, and this is what they bind. -/
def ReadAs (segments : List (List Char)) (names : List (List Char)) : Prop :=
  (∀ segment ∈ segments, segmentNames segment ≠ none) ∧ segments.flatMap boundNames = names

theorem boundNames_eq {segment : List Char} (h : segmentNames segment = some names) :
    boundNames segment = names := by
  rw [boundNames, h, Option.getD_some]

theorem segmentNames_eq {segment : List Char} (h : segmentNames segment ≠ none) :
    segmentNames segment = some (boundNames segment) := by
  obtain ⟨names, hnames⟩ := Option.ne_none_iff_exists'.mp h
  rw [hnames, boundNames_eq hnames]

theorem readAs_cons {segment : List Char} {segments : List (List Char)} :
    ReadAs (segment :: segments) names ↔ ∃ before behind, segmentNames segment = some before ∧
      ReadAs segments behind ∧ before ++ behind = names := by
  unfold ReadAs
  cases hsegment : segmentNames segment with
  | none => simp [hsegment]
  | some before => simp [hsegment, boundNames]

theorem readAs_nil : ReadAs [] names ↔ [] = names := by
  simp [ReadAs]

/-- The pattern is read segment by segment. -/
theorem readNames_convertFrom (cs : List Char) (h : ∀ name ∈ names, '/' ∉ name) :
    readNames (convertFrom cs .literal) .text = some names ↔ ReadAs (parts cs) names := by
  have hempty (segments : List (List Char)) (names : List (List Char)) :
      ReadAs (segments.filter (!·.isEmpty)) names ↔ ReadAs segments names := by
    induction segments generalizing names with
    | nil => rfl
    | cons segment segments ih =>
      cases segment with
      | nil => simp [readAs_cons, segmentNames, convertFrom, readNames, ih]
      | cons c segment => simp [readAs_cons, ih]
  rw [parts, hempty]
  obtain ⟨first, words, hfirst, hwords, rfl⟩ := exists_joinWords '/' cs
  rw [splitOn_joinWords hfirst hwords]
  clear hempty hfirst hwords
  induction words generalizing first names with
  | nil => simp [joinWords, readAs_cons, readAs_nil, segmentNames]
  | cons w words ih =>
    rw [joinWords_cons, convertFrom_append_slash, readNames_append_slash _ h, readAs_cons]
    refine exists₂_congr fun before behind => and_congr_right fun _ => and_congr_left fun hnames => ?_
    exact ih (fun name hname => h name (hnames ▸ List.mem_append_right _ hname)) w

/-! ## Matching the regular expression -/

/-- The text that a piece was read from. -/
def Piece.source : Piece → List Char
  | .text c => [c]
  | .capture name => ':' :: name

theorem source_flush (name : List Char) : (flush name).source = ':' :: name := by
  cases name <;> rfl

theorem scan_source (open? : Option (List Char)) (cs : List Char) :
    (scan unicode open? cs).flatMap Piece.source = (open?.elim [] (':' :: ·)) ++ cs := by
  induction cs generalizing open? with
  | nil => cases open? <;> simp [scan, source_flush]
  | cons c cs ih =>
    cases open? with
    | none =>
      unfold scan
      split_ifs with hcolon
      · simp [ih, hcolon]
      · rw [List.flatMap_cons, ih]
        rfl
    | some name =>
      unfold scan
      split_ifs with hword hcolon
      · simp [ih]
      · simp [ih, hcolon, source_flush]
      · rw [List.flatMap_cons, List.flatMap_cons, ih, source_flush]
        rfl

/-- Without a match the path stays as it is. -/
theorem render_of_noCapture (h : (scan unicode none cs).filterMap Piece.name? = []) :
    (scan unicode none cs).flatMap Piece.render = cs := by
  have htext : ∀ piece ∈ scan unicode none cs, piece.render = piece.source := by
    intro piece hpiece
    cases piece with
    | text c => rfl
    | capture name =>
      have hmem : name ∈ (scan unicode none cs).filterMap Piece.name? :=
        List.mem_filterMap.mpr ⟨_, hpiece, rfl⟩
      rw [h] at hmem
      cases hmem
  rw [List.flatMap_congr htext, scan_source]
  rfl

theorem scan_noColon (h : ':' ∉ cs) : scan unicode none cs = cs.map .text := by
  induction cs with
  | nil => rfl
  | cons c cs ih =>
    rw [List.mem_cons, not_or] at h
    rw [scan, if_neg (Ne.symm h.1), ih h.2, List.map_cons]

theorem scan_word (name : List Char) (h : ∀ c ∈ w, isWordChar unicode c = true) :
    scan unicode (some name) w = [flush (name ++ w)] := by
  induction w generalizing name with
  | nil => simp [scan]
  | cons c w ih =>
    obtain ⟨hc, hw⟩ := List.forall_mem_cons.mp h
    rw [scan, if_pos hc, ih _ hw, List.append_assoc, List.singleton_append]

theorem name?_flush {name : List Char} : (flush name).name? = some w ↔ name ≠ [] ∧ w = name := by
  cases name <;> simp [flush, Piece.name?, eq_comm]

/-- What is captured is a word. -/
theorem isWord_of_capture {open? : Option (List Char)}
    (hopen : ∀ name ∈ open?, ∀ c ∈ name, isWordChar unicode c = true)
    (h : w ∈ (scan unicode open? cs).filterMap Piece.name?) :
    IsWord (isWordChar unicode · = true) w := by
  induction cs generalizing open? with
  | nil =>
    cases open? with
    | none => cases h
    | some name =>
      simp only [scan, List.mem_filterMap, List.mem_singleton, exists_eq_left, name?_flush] at h
      obtain ⟨hne, rfl⟩ := h
      exact ⟨hne, hopen w rfl⟩
  | cons c cs ih =>
    cases open? with
    | none =>
      unfold scan at h
      split_ifs at h
      · exact ih (by simp) h
      · exact ih (by simp) h
    | some name =>
      have hname := hopen name rfl
      unfold scan at h
      split_ifs at h with hword hcolon
      · refine ih (fun longer hlonger => ?_) h
        obtain rfl := Option.some.inj hlonger
        simpa [or_imp, forall_and] using ⟨hname, hword⟩
      all_goals
        obtain ⟨piece, hpiece, hcapture⟩ := List.mem_filterMap.mp h
        rcases List.mem_cons.mp hpiece with rfl | hpiece
        · obtain ⟨hne, rfl⟩ := name?_flush.mp hcapture
          exact ⟨hne, hname⟩
      · exact ih (by simp) (List.mem_filterMap.mpr ⟨piece, hpiece, hcapture⟩)
      · rcases List.mem_cons.mp hpiece with rfl | hpiece
        · cases hcapture
        · exact ih (by simp) (List.mem_filterMap.mpr ⟨piece, hpiece, hcapture⟩)

theorem scan_append_slash (rest : List Char) (open? : Option (List Char)) :
    scan unicode open? (cs ++ '/' :: rest) =
      scan unicode open? cs ++ .text '/' :: scan unicode none rest := by
  induction cs generalizing open? with
  | nil => cases open? <;> rfl
  | cons c cs ih =>
    cases open? with
    | none =>
      simp only [List.cons_append, scan, ih]
      split_ifs <;> rfl
    | some name =>
      simp only [List.cons_append, scan, ih]
      split_ifs <;> rfl

/-! ## Braces in a template -/

theorem unpaired_cons : Unpaired (c :: cs) ↔ (c = '\x7b' → '\x7d' ∉ cs) ∧ Unpaired cs := by
  unfold Unpaired
  rw [List.pairwise_cons]
  refine and_congr_left fun _ => ⟨fun h hc hmem => h _ hmem hc rfl, fun h d hd hc heq => ?_⟩
  exact h hc (heq ▸ hd)

theorem braced_eq_nil_iff (open? : Option (List Char)) :
    braced open? cs = [] ↔ Unpaired cs ∧ (open? ≠ none → '\x7d' ∉ cs) := by
  induction cs generalizing open? with
  | nil => simp [braced, Unpaired]
  | cons c cs ih =>
    rw [unpaired_cons]
    unfold braced
    split_ifs with hopen hclose
    · simp [ih, hopen]
      tauto
    · subst hclose
      cases open? with
      | none => simp [ih]
      | some name => simp
    · simp [ih, hopen, Ne.symm hclose]

theorem braced_word {name : List Char} (h : '\x7b' ∉ w ∧ '\x7d' ∉ w) :
    braced (some name) (w ++ ['\x7d']) = [name ++ w] := by
  induction w generalizing name with
  | nil => simp [braced]
  | cons c w ih =>
    simp only [List.mem_cons, not_or] at h
    obtain ⟨⟨hopen, hopenw⟩, hclose, hclosew⟩ := h
    rw [List.cons_append, braced, if_neg (Ne.symm hopen), if_neg (Ne.symm hclose), Option.map_some,
      ih ⟨hopenw, hclosew⟩, List.append_assoc, List.singleton_append]

/-! ## A colon and a word -/

/-- The delimiters of the three scanners are no word characters. -/
theorem ne_of_isWordChar (hc : isWordChar unicode c = true) :
    c ≠ '/' ∧ c ≠ '-' ∧ c ≠ '.' ∧ c ≠ ':' ∧ c ≠ '*' ∧ c ≠ '\x7b' ∧ c ≠ '\x7d' := by
  have hdelimiter : ∀ d ∈ ['/', '-', '.', ':', '*', '\x7b', '\x7d'],
      isWordChar unicode d = false := by
    simp [isWordChar]
  have hne : ∀ d ∈ ['/', '-', '.', ':', '*', '\x7b', '\x7d'], c ≠ d := by
    rintro d hd rfl
    rw [hdelimiter c hd] at hc
    cases hc
  simpa using hne

theorem not_mem_word (hw : ∀ c ∈ w, isWordChar unicode c = true) :
    '/' ∉ w ∧ '\x7b' ∉ w ∧ '\x7d' ∉ w := by
  refine ⟨fun h => ?_, fun h => ?_, fun h => ?_⟩
  all_goals
    obtain ⟨hslash, -, -, -, -, hopen, hclose⟩ := ne_of_isWordChar (hw _ h)
    contradiction

theorem readNames_word {name : List Char} (h : '\x7d' ∉ w) :
    readNames (w ++ ['\x7d']) (.named name) = some [name ++ w] := by
  induction w generalizing name with
  | nil => simp [readNames]
  | cons c w ih =>
    rw [List.mem_cons, not_or] at h
    rw [List.cons_append, readNames, if_neg (Ne.symm h.1), ih h.2, List.append_assoc,
      List.singleton_append]

theorem segmentNames_word (h : IsWord (isWordChar unicode · = true) w) :
    segmentNames (':' :: w) = some [w] := by
  obtain ⟨hne, hw⟩ := h
  have hname : ∀ c ∈ w, c ≠ '/' ∧ c ≠ '-' ∧ c ≠ '.' := fun c hc =>
    ⟨(ne_of_isWordChar (hw c hc)).1, (ne_of_isWordChar (hw c hc)).2.1,
      (ne_of_isWordChar (hw c hc)).2.2.1⟩
  have hconvert : convertFrom (':' :: w) .literal = '\x7b' :: (w ++ ['\x7d']) := by
    have hrest := @convertFrom_name w [] (.inl rfl) hname
    rw [List.append_nil] at hrest
    rw [convertFrom, if_pos rfl, hrest]
    rfl
  obtain ⟨c, w, rfl⟩ := List.exists_cons_of_ne_nil hne
  obtain ⟨-, -, -, -, hstar, hopen, hclose⟩ := ne_of_isWordChar (hw c List.mem_cons_self)
  have hclosew : '\x7d' ∉ w := fun hmem => (not_mem_word hw).2.2 (List.mem_cons_of_mem c hmem)
  rw [segmentNames, hconvert, List.cons_append, readNames, if_pos rfl, readNames, if_neg hopen,
    if_neg hclose, if_neg hstar, readNames_word hclosew, List.singleton_append]

/-! ## A segment without parameters -/

theorem readNames_named_ne_nil (name : List Char) : readNames cs (.named name) ≠ some [] := by
  intro h
  obtain ⟨rest, tail, hnil⟩ := readNames_named h
  cases hnil

/-- Inside a name: it ends at the next character, or this is part of it. -/
theorem convertFrom_inside {inside : PathMode} (hinside : inside ≠ .literal) :
    convertFrom (c :: cs) inside = '\x7d' :: c :: convertFrom cs .literal ∨
      convertFrom (c :: cs) inside = c :: convertFrom cs inside := by
  cases inside with
  | literal => exact absurd rfl hinside
  | param =>
    rw [convertFrom]
    split_ifs <;> simp
  | wildcard =>
    rw [convertFrom]
    split_ifs <;> simp

/-- The closing brace that the conversion puts behind a name has no partner. -/
theorem closed_reads_name (hclose : '\x7d' ∉ cs) {inside : PathMode} (hinside : inside ≠ .literal) :
    readNames (convertFrom cs inside) .text ≠ some [] ∧
      readNames (convertFrom cs inside) .opened ≠ some [] := by
  induction cs with
  | nil => cases inside <;> simp [convertFrom, readNames] at hinside ⊢
  | cons c cs ih =>
    rw [List.mem_cons, not_or] at hclose
    obtain ⟨htext, hopened⟩ := ih hclose.2
    rcases @convertFrom_inside c cs inside hinside with hend | hgoes
    · simp [hend, readNames, Ne.symm hclose.1]
    · rw [hgoes]
      simp only [readNames, Ne.symm hclose.1, if_false]
      constructor
      · split_ifs
        · exact hopened
        · exact htext
      · split_ifs
        · exact htext
        all_goals exact readNames_named_ne_nil _

/-- The opening brace that the conversion puts before a name has no partner behind it. -/
theorem opened_reads_name (hunpaired : Unpaired cs) {inside : PathMode}
    (hinside : inside ≠ .literal) : readNames (convertFrom cs inside) .opened ≠ some [] := by
  cases cs with
  | nil => exact (closed_reads_name List.not_mem_nil hinside).2
  | cons c cs =>
    rcases @convertFrom_inside c cs inside hinside with hend | hgoes
    · simp [hend, readNames]
    · rw [hgoes]
      simp only [readNames]
      split_ifs with hopen
      · exact (closed_reads_name ((unpaired_cons.mp hunpaired).1 hopen) hinside).1
      · simp
      all_goals exact readNames_named_ne_nil _

/-- An opening brace with no partner behind it starts a name. -/
theorem brace_reads_name {mode : NameMode}
    (hopened : mode = .text → readNames cs .opened ≠ some [])
    (htext : mode = .opened → readNames cs .text ≠ some []) :
    readNames ('\x7b' :: cs) mode ≠ some [] := by
  cases mode with
  | text => exact hopened rfl
  | opened => exact htext rfl
  | closing => exact nofun
  | named name => exact readNames_named_ne_nil name

/-- Without a pair of braces to hide it, a colon or a star makes a parameter. -/
theorem noSigil_of_readNames (hunpaired : Unpaired cs) {mode : NameMode}
    (hmode : mode = .opened → '\x7d' ∉ cs)
    (h : readNames (convertFrom cs .literal) mode = some []) : ':' ∉ cs ∧ '*' ∉ cs := by
  induction cs generalizing mode with
  | nil => simp
  | cons c cs ih =>
    obtain ⟨hpair, htail⟩ := unpaired_cons.mp hunpaired
    have hclosed {inside : PathMode} (hinside : inside ≠ .literal) (hm : mode = .opened) :
        readNames (convertFrom cs inside) .text ≠ some [] :=
      (closed_reads_name (List.not_mem_of_not_mem_cons (hmode hm)) hinside).1
    have hnocolon : c ≠ ':' := by
      rintro rfl
      have hopened := @opened_reads_name cs htail .param (by simp)
      exact brace_reads_name (fun _ => hopened) (@hclosed .param (by simp)) h
    have hnostar : c ≠ '*' := by
      rintro rfl
      have hopened : readNames ('*' :: convertFrom cs .wildcard) .opened ≠ some [] :=
        readNames_named_ne_nil []
      have htext : mode = .opened → readNames ('*' :: convertFrom cs .wildcard) .text ≠ some [] :=
        @hclosed .wildcard (by simp)
      exact brace_reads_name (fun _ => hopened) htext h
    have hconvert : convertFrom (c :: cs) .literal = c :: convertFrom cs .literal := by
      rw [convertFrom, if_neg hnocolon, if_neg hnostar]
    have hclosing : NameMode.closing = .opened → '\x7d' ∉ cs := by simp
    have htext : NameMode.text = .opened → '\x7d' ∉ cs := by simp
    -- neither of the two characters is here, so the tail is read in the mode that this one leads to
    have hrest : ':' ∉ cs ∧ '*' ∉ cs := by
      rw [hconvert] at h
      cases mode with
      | text =>
        unfold readNames at h
        split_ifs at h with hopen hclose
        · exact ih htail (fun _ => hpair hopen) h
        · exact ih htail hclosing h
        · exact ih htail htext h
      | opened =>
        unfold readNames at h
        split_ifs at h with hopen
        · exact ih htail htext h
        all_goals exact absurd h (readNames_named_ne_nil _)
      | closing =>
        unfold readNames at h
        split_ifs at h
        exact ih htail htext h
      | named name => exact absurd h (readNames_named_ne_nil name)
    simp [hrest, Ne.symm hnocolon, Ne.symm hnostar]

/-! ## The names of one segment -/

def colonNames (segment : List Char) : List (List Char) :=
  if segment.head? = some ':' then [segment.drop 1] else []

section

variable (unicode : Char → Bool)

def foundNames (segment : List Char) : List (List Char) :=
  (scan unicode none segment).filterMap Piece.name?

def shownNames (segment : List Char) : List (List Char) :=
  braced none ((scan unicode none segment).flatMap Piece.render)

end

/-- The four lists of names of a plain segment are one. -/
theorem names_of_namePart (h : NamePart unicode part) :
    segmentNames part = some (colonNames part) ∧ foundNames unicode part = colonNames part ∧
      shownNames unicode part = colonNames part ∧ ∀ name ∈ colonNames part, '/' ∉ name := by
  rcases h with ⟨w, hw, rfl⟩ | ⟨⟨hcolon, hstar⟩, hunpaired, hbinds⟩
  · have hnames : colonNames (':' :: w) = [w] := if_pos rfl
    have hscan : scan unicode none (':' :: w) = [.capture w] := by
      rw [scan, if_pos rfl, scan_word [] hw.2, List.nil_append]
      obtain ⟨c, w, rfl⟩ := List.exists_cons_of_ne_nil hw.1
      rfl
    obtain ⟨hslash, hbraces⟩ := not_mem_word hw.2
    refine ⟨?_, ?_, ?_, ?_⟩
    · rw [hnames, segmentNames_word hw]
    · rw [hnames, foundNames, hscan]
      rfl
    · have hshown := @braced_word w [] hbraces
      have htemplate : [Piece.capture w].flatMap Piece.render = '\x7b' :: (w ++ ['\x7d']) := by
        simp [Piece.render]
      rw [hnames, shownNames, hscan, htemplate, braced, if_pos rfl, hshown, List.nil_append]
    · rw [hnames, List.forall_mem_singleton]
      exact hslash
  · have hnames : colonNames part = [] :=
      if_neg fun hhead => hcolon (List.mem_of_mem_head? hhead)
    have hfound : foundNames unicode part = [] := by
      rw [foundNames, scan_noColon hcolon, List.filterMap_map]
      exact List.filterMap_eq_nil_iff.mpr fun _ _ => rfl
    have hshown : shownNames unicode part = [] := by
      rw [shownNames, render_of_noCapture hfound]
      exact (braced_eq_nil_iff none).mpr ⟨hunpaired, fun h => absurd rfl h⟩
    rw [hnames]
    exact ⟨hbinds, hfound, hshown, nofun⟩

theorem namePart_of_names (hbound : segmentNames part = some (colonNames part))
    (hfound : foundNames unicode part = colonNames part)
    (hshown : shownNames unicode part = colonNames part) : NamePart unicode part := by
  by_cases hhead : part.head? = some ':'
  · obtain ⟨name, rfl⟩ := List.head?_eq_some_iff.mp hhead
    have hname : name ∈ foundNames unicode (':' :: name) := by
      rw [hfound]
      exact List.mem_singleton_self name
    exact .inl ⟨name, isWord_of_capture (by simp) hname, rfl⟩
  · have hnames : colonNames part = [] := if_neg hhead
    rw [hnames] at hbound hfound hshown
    rw [shownNames, render_of_noCapture hfound] at hshown
    have hunpaired := ((braced_eq_nil_iff none).mp hshown).1
    exact .inr ⟨@noSigil_of_readNames part hunpaired .text nofun hbound, hunpaired, hbound⟩

/-! ## All segments -/

theorem flatMap_parts {f : List Char → List (List Char)} (hf : f [] = []) (cs : List Char) :
    (parts cs).flatMap f = (cs.splitOn '/').flatMap f := by
  rw [parts]
  induction cs.splitOn '/' with
  | nil => rfl
  | cons segment segments ih =>
    cases segment with
    | nil => simpa [hf] using ih
    | cons c segment => simpa using ih

theorem getPathParams_eq (path : String) :
    getPathParams path = (parts path.toList).flatMap colonNames := by
  rw [flatMap_parts rfl, getPathParams]
  induction path.toList.splitOn '/' with
  | nil => rfl
  | cons segment segments ih =>
    rw [List.flatMap_cons, ← ih]
    by_cases hhead : segment.head? = some ':'
    · rw [List.filter_cons_of_pos (by simp [hhead]), colonNames, if_pos hhead]
      rfl
    · rw [List.filter_cons_of_neg (by simp [hhead]), colonNames, if_neg hhead, List.nil_append]

theorem pathParams_eq (path : String) :
    pathParams unicode path = (parts path.toList).flatMap (foundNames unicode) := by
  have hslash (u v : List Char) :
      foundNames unicode (u ++ '/' :: v) = foundNames unicode u ++ foundNames unicode v := by
    rw [foundNames, scan_append_slash, List.filterMap_append]
    rfl
  rw [flatMap_parts rfl, flatMap_splitOn hslash]
  rfl

/-- The template has no slashes but those of the path. -/
theorem not_mem_render (h : '/' ∉ cs) : '/' ∉ (scan unicode none cs).flatMap Piece.render := by
  intro hmem
  obtain ⟨piece, hpiece, hslash⟩ := List.mem_flatMap.mp hmem
  have hsource : '/' ∈ piece.source := by
    cases piece with
    | text c => exact hslash
    | capture name => simpa [Piece.render, Piece.source] using hslash
  have hcs : '/' ∈ (scan unicode none cs).flatMap Piece.source :=
    List.mem_flatMap.mpr ⟨piece, hpiece, hsource⟩
  rw [scan_source] at hcs
  exact h hcs

theorem mentioned_eq (path : String) :
    mentioned (openapiPath unicode path) = (parts path.toList).flatMap (shownNames unicode) := by
  let render (cs : List Char) := (scan unicode none cs).flatMap Piece.render
  have hslash (u v : List Char) : ((render (u ++ '/' :: v)).splitOn '/').flatMap (braced none) =
      ((render u).splitOn '/').flatMap (braced none) ++
        ((render v).splitOn '/').flatMap (braced none) := by
    have hrender : render (u ++ '/' :: v) = render u ++ '/' :: render v := by
      simp only [render, scan_append_slash, List.flatMap_append, List.flatMap_cons]
      rfl
    rw [hrender, List.splitOn_append_cons_self, List.flatMap_append]
  have hsegment : ∀ segment ∈ path.toList.splitOn '/',
      ((render segment).splitOn '/').flatMap (braced none) = shownNames unicode segment := by
    intro segment hmem
    have hnoslash : '/' ∉ render segment := not_mem_render (sep_not_mem_of_mem_splitOn hmem)
    rw [List.splitOn_eq_singleton hnoslash]
    simp [shownNames, render]
  rw [flatMap_parts rfl, ← List.flatMap_congr hsegment, flatMap_splitOn hslash, mentioned,
    openapiPath, String.toList_ofList]

/-! ## Accepted routes -/

namespace RouteStore

variable {env : RouterCrates T F} {s : RouteStore T F} {r : Route F}

theorem exists_names (h : (s.addRoute env r).1 = .ok ()) :
    ∃ names, readNames (s.pattern r).toList .text = some names := by
  rcases addRoute_cases env s r with ⟨e, he⟩ | ⟨s', -, hadd⟩
  · rw [he] at h
    cases h
  · obtain ⟨ts, hts, -⟩ := hadd.wellFormed
    have hread := @isSome_readNames (s.pattern r).toList _ _ .text
    rw [← tokens, hts] at hread
    exact Option.isSome_iff_exists.mp hread

theorem readNames_pattern (h : ∀ name ∈ names, '/' ∉ name) :
    readNames (s.pattern r).toList .text = some names ↔
      ReadAs (parts s.path.toList ++ parts r.path.toList) names := by
  rw [pattern, convertToMatchitPath, String.toList_ofList, readNames_convertFrom _ h,
    parts_getFullPath]

/-- A segment that starts with a colon is a plain one when its name is a word. -/
theorem names_of_words {g : List Char → List (List Char)}
    (hwords : ∀ name ∈ colonNames part, IsWord (isWordChar unicode · = true) name)
    (hg : NamePart unicode part → g part = colonNames part) :
    colonNames part = g part ∨ colonNames part = [] := by
  by_cases hhead : part.head? = some ':'
  · obtain ⟨name, rfl⟩ := List.head?_eq_some_iff.mp hhead
    have hname := hwords name (List.mem_singleton_self name)
    exact .inl (hg (.inl ⟨name, hname, rfl⟩)).symm
  · exact .inr (if_neg hhead)

theorem nameParts_of_namesAgree (hagree : NamesAgree unicode s r)
    (hnames : readNames (s.pattern r).toList .text = some names) :
    (∀ part ∈ parts s.path.toList, BindsNothing part) ∧
      ∀ part ∈ parts r.path.toList, NamePart unicode part := by
  obtain ⟨hbound, hdeclared, htemplate⟩ := hagree
  rw [patternNames, hnames, Option.getD_some, getPathParams_eq] at hbound
  rw [pathParams_eq, getPathParams_eq] at hdeclared
  rw [mentioned_eq, getPathParams_eq] at htemplate
  have hword : ∀ name ∈ (parts r.path.toList).flatMap colonNames,
      IsWord (isWordChar unicode · = true) name := by
    intro name hname
    rw [← hdeclared] at hname
    obtain ⟨part, -, hfound⟩ := List.mem_flatMap.mp hname
    exact isWord_of_capture (by simp) hfound
  have hwords : ∀ part ∈ parts r.path.toList, ∀ name ∈ colonNames part,
      IsWord (isWordChar unicode · = true) name := fun part hpart name hname =>
    hword name (List.mem_flatMap.mpr ⟨part, hpart, hname⟩)
  have hslash : ∀ name ∈ names, '/' ∉ name := by
    intro name hname
    rw [hbound] at hname
    exact (not_mem_word (hword name hname).2).1
  obtain ⟨hsome, hflat⟩ := (readNames_pattern hslash).mp hnames
  have hsame {g : List Char → List (List Char)}
      (hg : ∀ part, NamePart unicode part → g part = colonNames part) :
      ∀ part ∈ parts r.path.toList, colonNames part = g part ∨ colonNames part = [] :=
    fun part hpart => names_of_words (hwords part hpart) (hg part)
  have hsameBound := hsame fun part hpart => boundNames_eq (names_of_namePart hpart).1
  -- the route alone has at least as many names as colons, so the base path has none
  have hcount := length_flatMap_le hsameBound
  have hlength := congrArg List.length (hflat.trans hbound)
  rw [List.flatMap_append, List.length_append] at hlength
  have hbase : (parts s.path.toList).flatMap boundNames = [] := by
    rw [← List.length_eq_zero_iff]
    omega
  refine ⟨fun part hpart => ?_, fun part hpart => ?_⟩
  · have hnil : boundNames part = [] := List.flatMap_eq_nil_iff.mp hbase part hpart
    have hread := segmentNames_eq (hsome part (List.mem_append_left _ hpart))
    rwa [hnil] at hread
  · have hread := segmentNames_eq (hsome part (List.mem_append_right _ hpart))
    have hpartBound := eq_of_length_flatMap hsameBound (by omega) part hpart
    have hpartFound := eq_of_length_flatMap (hsame fun _ h => (names_of_namePart h).2.1)
      (le_of_eq (congrArg List.length hdeclared)) part hpart
    have hpartShown := eq_of_length_flatMap (hsame fun _ h => (names_of_namePart h).2.2.1)
      (le_of_eq (congrArg List.length htemplate)) part hpart
    rw [← hpartBound] at hread
    exact namePart_of_names hread hpartFound.symm hpartShown.symm

/-- The names of an accepted route agree exactly when the base path binds nothing and every segment
of the route is one whole parameter or has none. -/
theorem namesAgree_iff (unicode : Char → Bool) (env : RouterCrates T F) (s : RouteStore T F)
    (r : Route F) (h : (s.addRoute env r).1 = .ok ()) :
    NamesAgree unicode s r ↔ (∀ part ∈ parts s.path.toList, BindsNothing part) ∧
      ∀ part ∈ parts r.path.toList, NamePart unicode part := by
  obtain ⟨names, hnames⟩ := exists_names h
  refine ⟨fun hagree => nameParts_of_namesAgree hagree hnames, ?_⟩
  rintro ⟨hbase, hparts⟩
  have hslash : ∀ name ∈ getPathParams r.path, '/' ∉ name := by
    intro name hname
    rw [getPathParams_eq] at hname
    obtain ⟨part, hpart, hname⟩ := List.mem_flatMap.mp hname
    exact (names_of_namePart (hparts part hpart)).2.2.2 name hname
  have hread : ReadAs (parts s.path.toList ++ parts r.path.toList) (getPathParams r.path) := by
    have hbaseNames : ∀ part ∈ parts s.path.toList, segmentNames part = some [] := hbase
    have hnone : (parts s.path.toList).flatMap boundNames = [] :=
      List.flatMap_eq_nil_iff.mpr fun part hpart => boundNames_eq (hbaseNames part hpart)
    refine ⟨List.forall_mem_append.mpr ⟨fun part hpart => ?_, fun part hpart => ?_⟩, ?_⟩
    · simp [hbaseNames part hpart]
    · simp [(names_of_namePart (hparts part hpart)).1]
    · rw [List.flatMap_append, hnone, List.nil_append, getPathParams_eq]
      exact List.flatMap_congr fun part hpart => boundNames_eq (names_of_namePart (hparts part hpart)).1
  refine ⟨?_, ?_, ?_⟩
  · rw [patternNames, (readNames_pattern hslash).mpr hread, Option.getD_some]
  · rw [pathParams_eq, getPathParams_eq]
    exact List.flatMap_congr fun part hpart => (names_of_namePart (hparts part hpart)).2.1
  · rw [mentioned_eq, getPathParams_eq]
    exact List.flatMap_congr fun part hpart => (names_of_namePart (hparts part hpart)).2.2.1

/-- The pattern and the regular expression end the name at the hyphen, `get_path_params` at the
slash. -/
theorem hyphen_splits_name : ∃ (s : RouteStore (List (String × Route Unit)) Unit) (r : Route Unit),
    r.path = "/:user-id" ∧ (s.addRoute (asciiCrates Unit) r).1 = .ok () ∧
    patternNames (s.pattern r) = ["user".toList] ∧ getPathParams r.path = ["user-id".toList] ∧
    ¬ NamesAgree (fun _ => false) s r := by
  refine ⟨new (asciiCrates Unit) "/", ⟨"/:user-id", (), "GET"⟩, rfl, by decide, by decide,
    by decide, fun h => ?_⟩
  exact absurd h.bound (by decide)

theorem names_of_users : ∃ (s : RouteStore (List (String × Route Unit)) Unit) (r : Route Unit),
    r.path = "/users/:id/posts/:post_id" ∧ NamesAgree (fun _ => false) s r := by
  refine ⟨new (asciiCrates Unit) "/", ⟨"/users/:id/posts/:post_id", (), "GET"⟩, rfl, ?_⟩
  refine (namesAgree_iff _ (asciiCrates Unit) _ _ (by decide)).mpr ⟨by decide, ?_⟩
  have hparts : parts "/users/:id/posts/:post_id".toList =
      ["users".toList, ":id".toList, "posts".toList, ":post_id".toList] := by decide
  show ∀ part ∈ parts "/users/:id/posts/:post_id".toList, NamePart (fun _ => false) part
  rw [hparts]
  simp only [List.forall_mem_cons]
  have hid : NamePart (fun _ => false) ":id".toList :=
    .inl ⟨"id".toList, ⟨by decide, List.all_eq_true.mp (by decide)⟩, rfl⟩
  have hpost : NamePart (fun _ => false) ":post_id".toList :=
    .inl ⟨"post_id".toList, ⟨by decide, List.all_eq_true.mp (by decide)⟩, rfl⟩
  exact ⟨.inr (by decide), hid, .inr (by decide), hpost, List.forall_mem_nil _⟩

end RouteStore

end Hypern.Routing
