import Hypern.Http.Multipart
import Hypern.Lib.Utf8RoundTrip

/-! Multipart bodies as they are sent, and what the parser makes of them. -/

namespace Hypern.Http

open Lib

/-! ## The rendering -/

def joinCrlf : List String → String
  | [] => ""
  | [line] => line
  | line :: lines => line ++ "\r\n" ++ joinCrlf lines

/-- The headers, a blank line, the content. -/
def renderPart (headers : List String) (content : List UInt8) : List UInt8 :=
  utf8 (joinCrlf headers) ++ crlf ++ crlf ++ content

def renderBody (delimiter : List UInt8) (parts : List (List UInt8)) : List UInt8 :=
  parts.flatMap (fun part => delimiter ++ crlf ++ part ++ crlf) ++ delimiter ++ dashes

def quoted (s : String) : String := "\"" ++ s ++ "\""

def disposition (name : String) (filename : Option String) : String :=
  "form-data;" ++ " name=" ++ quoted name ++
    match filename with
    | some filename => ";" ++ " filename=" ++ quoted filename
    | none => ""

/-- A part as a client means it: a file if it has a file name, else a text field. -/
structure SentPart where
  name : String
  filename : Option String
  contentType : Option String
  content : List UInt8

namespace SentPart

def headers (p : SentPart) : List String :=
  ("Content-Disposition: " ++ disposition p.name p.filename) ::
    (p.contentType.map fun contentType => "Content-Type: " ++ contentType).toList

def render (p : SentPart) : List UInt8 := renderPart p.headers p.content

end SentPart

def NoBreaks (s : String) : Prop := '\r' ∉ s.toList ∧ '\n' ∉ s.toList

instance (s : String) : Decidable (NoBreaks s) :=
  inferInstanceAs (Decidable ('\r' ∉ s.toList ∧ '\n' ∉ s.toList))

/-- What may stand between the quotes of a parameter. -/
def Plain (s : String) : Prop := quote ∉ s.toList ∧ ';' ∉ s.toList ∧ NoBreaks s

instance (s : String) : Decidable (Plain s) :=
  inferInstanceAs (Decidable (quote ∉ s.toList ∧ ';' ∉ s.toList ∧ NoBreaks s))

structure SentPart.Clean (p : SentPart) : Prop where
  name : Plain p.name
  filename : ∀ filename ∈ p.filename, Plain filename
  contentType : ∀ contentType ∈ p.contentType, NoBreaks contentType

/-! ## Splitting a body -/

variable {delimiter : List UInt8}

theorem renderBody_cons (part : List UInt8) (parts : List (List UInt8)) :
    renderBody delimiter (part :: parts) =
      delimiter ++ (crlf ++ (part ++ crlf ++ renderBody delimiter parts)) := by
  unfold renderBody
  rw [List.flatMap_cons]
  simp only [List.append_assoc]

theorem skipCrlf_crlf {rest : List UInt8} (h : rest ≠ []) : skipCrlf (crlf ++ rest) = rest := by
  have hlength := List.length_pos_iff.mpr h
  unfold skipCrlf
  rw [if_pos ⟨by rw [List.length_append]; exact Nat.add_lt_add_left hlength 2, rfl⟩]
  rfl

section Delimiter

variable (hne : delimiter ≠ []) (hcr : 13 ∉ delimiter) (hlf : 10 ∉ delimiter)
include hne

theorem findBytes_delimiter (tail : List UInt8) :
    findBytes (delimiter ++ tail) delimiter = some 0 := by
  rw [findBytes_of_ne_nil hne, findList_at_start hne (List.prefix_append ..)]

include hcr hlf

/-- The next delimiter comes right after the line break that ends the part. -/
theorem findBytes_part {part : List UInt8} (hpart : ¬ delimiter <:+: part) (tail : List UInt8) :
    findBytes (part ++ crlf ++ (delimiter ++ tail)) delimiter = some (part ++ crlf).length := by
  have hempty : ¬ delimiter <:+: [] := fun h => hne (List.infix_nil.mp h)
  have hline : findList delimiter (10 :: (delimiter ++ tail)) = some 1 := by
    have happend := findList_append hlf hempty (delimiter ++ tail)
    rw [findList_at_start hne (List.prefix_append ..)] at happend
    exact happend
  have hfind : part ++ crlf ++ (delimiter ++ tail) = part ++ 13 :: 10 :: (delimiter ++ tail) := by
    rw [List.append_assoc]
    rfl
  rw [findBytes_of_ne_nil hne, hfind, findList_append hcr hpart, hline, List.length_append]
  exact congrArg some (Nat.add_comm ..)

/-- A part that the delimiter ends is cut off there. -/
theorem splitFrom_part {part : List UInt8} (hpart : ¬ delimiter <:+: part) (tail : List UInt8) :
    splitFrom delimiter (part ++ crlf ++ (delimiter ++ tail)) =
      if dashes.isPrefixOf tail then [part ++ crlf]
      else (part ++ crlf) :: splitFrom delimiter (skipCrlf tail) := by
  have hdrop : (part ++ crlf ++ (delimiter ++ tail)).drop
      ((part ++ crlf).length + delimiter.length) = tail := by
    rw [← List.drop_drop, List.drop_left, List.drop_left]
  rw [splitFrom_of_some (findBytes_part hne hcr hlf hpart tail), hdrop, List.take_left]

theorem splitFrom_renderBody {part : List UInt8} {parts : List (List UInt8)}
    (hparts : ∀ p ∈ part :: parts, ¬ delimiter <:+: p) :
    splitFrom delimiter (part ++ crlf ++ renderBody delimiter parts) =
      (part :: parts).map (· ++ crlf) := by
  obtain ⟨hpart, hrest⟩ := List.forall_mem_cons.mp hparts
  induction parts generalizing part with
  | nil =>
    have hbody : renderBody delimiter [] = delimiter ++ dashes := rfl
    rw [hbody, splitFrom_part hne hcr hlf hpart]
    rfl
  | cons next parts ih =>
    obtain ⟨hnext, hlast⟩ := List.forall_mem_cons.mp hrest
    have hmore : next ++ crlf ++ renderBody delimiter parts ≠ [] := by simp [crlf]
    rw [renderBody_cons, splitFrom_part hne hcr hlf hpart, skipCrlf_crlf hmore,
      ih hrest hnext hlast]
    rfl

theorem splitMultipart_renderBody {parts : List (List UInt8)}
    (hparts : ∀ p ∈ parts, ¬ delimiter <:+: p) :
    parts ≠ [] → splitMultipart (renderBody delimiter parts) delimiter = parts.map (· ++ crlf) := by
  intro hsome
  obtain ⟨part, parts, rfl⟩ := List.exists_cons_of_ne_nil hsome
  have hmore : part ++ crlf ++ renderBody delimiter parts ≠ [] := by simp [crlf]
  unfold splitMultipart
  rw [renderBody_cons, findBytes_delimiter hne]
  dsimp only
  rw [Nat.zero_add, List.drop_left, skipCrlf_crlf hmore, splitFrom_renderBody hne hcr hlf hparts]

end Delimiter

theorem length_of_mem_splitFrom (boundary rest : List UInt8) :
    ∀ part ∈ splitFrom boundary rest, part.length ≤ rest.length := by
  fun_induction splitFrom boundary rest with
  | case1 rest stop _ after hfinal =>
    intro part hpart
    rw [List.mem_singleton.mp hpart]
    exact List.length_take_le' _ _
  | case2 rest stop _ after hfinal ih =>
    intro part hpart
    rcases List.mem_cons.mp hpart with rfl | hpart
    · exact List.length_take_le' _ _
    · refine (ih part hpart).trans ((length_skipCrlf_le _).trans ?_)
      exact (List.drop_sublist _ _).length_le
  | case3 => simp
  | case4 rest =>
    intro part hpart
    rw [List.mem_singleton.mp hpart]

/-- A body without parts leaves nothing that is long enough for one. -/
theorem length_of_mem_splitMultipart (hne : delimiter ≠ []) :
    ∀ part ∈ splitMultipart (renderBody delimiter []) delimiter, part.length < 4 := by
  have hbody : renderBody delimiter [] = delimiter ++ dashes := rfl
  intro part hpart
  unfold splitMultipart at hpart
  rw [hbody, findBytes_delimiter hne] at hpart
  dsimp only at hpart
  rw [Nat.zero_add, List.drop_left] at hpart
  exact Nat.lt_of_le_of_lt (length_of_mem_splitFrom _ _ part hpart) (by decide)

theorem addPart_of_short (unicode : String → String) (form : FormData) {part : List UInt8}
    (h : part.length < 4) : addPart unicode form part = form := by
  unfold addPart
  split_ifs
  · rfl
  · have hnone : findDoubleCrlf part = none := by
      rw [findDoubleCrlf_eq_findList]
      exact findList_of_length_lt h
    rw [hnone]

/-! ## Finding the headers -/

theorem findDoubleCrlf_line {line : List UInt8} (hcr : 13 ∉ line) (rest : List UInt8) :
    findDoubleCrlf (line ++ crlf ++ crlf ++ rest) = some line.length := by
  have hcrlf : crlf ++ crlf = 13 :: [10, 13, 10] := rfl
  rw [findDoubleCrlf_eq_findList, List.append_assoc, List.append_assoc, ← List.append_assoc crlf crlf rest,
    hcrlf, findList_append_of_notMem hcr, findList_at_start (by decide) (List.prefix_append ..),
    Option.map_some, Nat.zero_add]

/-- Between two lines there is one line break only. -/
theorem findDoubleCrlf_lines {line rest : List UInt8} {b : UInt8} (hcr : 13 ∉ line) (hb : b ≠ 13)
    {stop : Nat} (h : findDoubleCrlf (b :: rest) = some stop) :
    findDoubleCrlf (line ++ crlf ++ b :: rest) = some ((line ++ crlf).length + stop) := by
  have hcrlf : crlf ++ crlf = 13 :: [10, 13, 10] := rfl
  have hfirst : ¬ [13, 10, 13, 10] <+: 13 :: 10 :: b :: rest := by
    simp [List.cons_prefix_cons, Ne.symm hb]
  have hsecond : ¬ [13, 10, 13, 10] <+: 10 :: b :: rest := by
    simp [List.cons_prefix_cons]
  have hline : line ++ crlf ++ b :: rest = line ++ 13 :: 10 :: b :: rest := by
    rw [List.append_assoc]
    rfl
  rw [findDoubleCrlf_eq_findList, hcrlf] at h ⊢
  rw [hline, findList_append_of_notMem hcr, findList_cons_of_not hfirst,
    findList_cons_of_not hsecond, h, List.length_append]
  simp only [Option.map_some, Option.some.injEq]
  change stop + 1 + 1 + line.length = line.length + 2 + stop
  omega

theorem joinCrlf_cons (line : String) (lines : List String) :
    ∃ tail, joinCrlf (line :: lines) = line ++ tail := by
  cases lines with
  | nil => exact ⟨"", String.append_empty.symm⟩
  | cons next lines => exact ⟨_, String.append_assoc⟩

theorem cr_notMem_utf8 {s : String} (h : '\r' ∉ s.toList) : 13 ∉ utf8 s :=
  notMem_utf8 (by decide) h

theorem findDoubleCrlf_headers {lines : List String} (hsome : lines ≠ [])
    (hlines : ∀ line ∈ lines, line ≠ "" ∧ '\r' ∉ line.toList) (rest : List UInt8) :
    findDoubleCrlf (utf8 (joinCrlf lines) ++ crlf ++ crlf ++ rest) =
      some (utf8 (joinCrlf lines)).length := by
  induction lines with
  | nil => exact absurd rfl hsome
  | cons line lines ih =>
    obtain ⟨⟨-, hcr⟩, hrest⟩ := List.forall_mem_cons.mp hlines
    cases lines with
    | nil => exact findDoubleCrlf_line (cr_notMem_utf8 hcr) rest
    | cons next lines =>
      obtain ⟨hne, hnext⟩ := hrest next List.mem_cons_self
      obtain ⟨tail, htail⟩ := joinCrlf_cons next lines
      obtain ⟨b, bs, hbytes⟩ := List.exists_cons_of_ne_nil (utf8_ne_nil hne)
      have hb : b ≠ 13 := fun heq =>
        cr_notMem_utf8 hnext (hbytes ▸ heq ▸ List.mem_cons_self)
      have hjoined : utf8 (joinCrlf (line :: next :: lines)) =
          utf8 line ++ crlf ++ utf8 (joinCrlf (next :: lines)) := by
        rw [joinCrlf, utf8_append, utf8_append]
        · rfl
        · exact nofun
      have hih := ih nofun hrest
      rw [htail, utf8_append, hbytes] at hih
      simp only [List.cons_append] at hih
      have hfind := findDoubleCrlf_lines (cr_notMem_utf8 hcr) hb hih
      rw [hjoined, htail, utf8_append, hbytes]
      simpa only [List.append_assoc, List.cons_append, List.length_append, Nat.add_assoc] using hfind

/-! ## Splitting the headers -/

theorem splitCrlf_cons {c : Char} (h : c ≠ '\r') (rest : List Char) :
    splitCrlf (c :: rest) = (splitCrlf rest).modifyHead (c :: ·) := by
  rw [splitCrlf]
  rintro rest' rfl
  exact absurd rfl h

theorem splitCrlf_append {line : List Char} (h : '\r' ∉ line) (rest : List Char) :
    splitCrlf (line ++ rest) = (splitCrlf rest).modifyHead (line ++ ·) := by
  induction line with
  | nil =>
    rw [List.nil_append]
    cases splitCrlf rest <;> rfl
  | cons c line ih =>
    obtain ⟨hc, hline⟩ := List.ne_and_not_mem_of_not_mem_cons h
    rw [List.cons_append, splitCrlf_cons (Ne.symm hc), ih hline]
    cases splitCrlf rest <;> rfl

theorem splitCrlf_joinCrlf {lines : List String} (hsome : lines ≠ [])
    (hlines : ∀ line ∈ lines, '\r' ∉ line.toList) :
    splitCrlf (joinCrlf lines).toList = lines.map String.toList := by
  induction lines with
  | nil => exact absurd rfl hsome
  | cons line lines ih =>
    obtain ⟨hline, hrest⟩ := List.forall_mem_cons.mp hlines
    cases lines with
    | nil =>
      have hsplit := splitCrlf_append hline []
      rw [List.append_nil] at hsplit
      rw [joinCrlf, hsplit, splitCrlf]
      simp
    | cons next lines =>
      have hjoined : (joinCrlf (line :: next :: lines)).toList =
          line.toList ++ '\r' :: '\n' :: (joinCrlf (next :: lines)).toList := by
        rw [joinCrlf, String.toList_append, String.toList_append, List.append_assoc]
        · rfl
        · exact nofun
      rw [hjoined, splitCrlf_append hline, splitCrlf, ih nofun hrest]
      simp

theorem parsePartHeaders_joinCrlf (unicode : String → String) {lines : List String}
    (hsome : lines ≠ []) (hlines : ∀ line ∈ lines, '\r' ∉ line.toList) :
    parsePartHeaders unicode (utf8 (joinCrlf lines)) =
      (lines.map String.toList).foldl (addHeader unicode) ∅ := by
  unfold parsePartHeaders
  rw [fromUtf8Lossy_utf8, splitCrlf_joinCrlf hsome hlines]

theorem addHeader_line (unicode : String → String) (headers : Table String String)
    {name : List Char} (hname : ':' ∉ name) (value : List Char) :
    addHeader unicode headers (name ++ ':' :: value) =
      headers.insert (toLowercase unicode (String.ofList (trim name)))
        (String.ofList (trim value)) := by
  have hfind : findList [':'] (name ++ ':' :: value) = some name.length := by
    rw [findList_append_of_notMem hname, findList_at_start (by decide) (by simp)]
    exact congrArg some (Nat.zero_add _)
  unfold addHeader
  rw [hfind]
  dsimp only
  rw [List.take_left, ← List.drop_drop, List.drop_left]
  rfl

/-! ## Trimming -/

/-- The text neither begins nor ends with such a character. -/
def Trimmed (p : Char → Bool) (s : List Char) : Prop :=
  (∀ c, s.head? = some c → p c = false) ∧ ∀ c, s.getLast? = some c → p c = false

theorem trimMatches_of_trimmed {p : Char → Bool} {s : List Char} (h : Trimmed p s) :
    trimMatches p s = s := by
  have hdrop : s.dropWhile p = s := by
    cases s with
    | nil => rfl
    | cons c s => rw [List.dropWhile_cons_of_neg (by simp [h.1 c rfl])]
  unfold trimMatches
  rw [hdrop, List.rdropWhile_eq_self_iff]
  intro hne
  simp [h.2 _ (List.getLast?_eq_some_getLast hne)]

theorem trimMatches_cons {p : Char → Bool} {c : Char} (hc : p c = true) (s : List Char) :
    trimMatches p (c :: s) = trimMatches p s := by
  unfold trimMatches
  rw [List.dropWhile_cons_of_pos hc]

/-- Quotes around a text without quotes come off. -/
theorem trimMatches_quoted {p : Char → Bool} {q : Char} (hq : p q = true) {s : List Char}
    (hs : ∀ c ∈ s, p c = false) : trimMatches p (q :: (s ++ [q])) = s := by
  rw [trimMatches_cons hq]
  unfold trimMatches
  cases s with
  | nil =>
    rw [List.nil_append, List.dropWhile_cons_of_pos hq]
    rfl
  | cons c s =>
    rw [List.cons_append, List.dropWhile_cons_of_neg (by simp [hs c]), ← List.cons_append,
      List.rdropWhile_concat_pos _ _ _ hq, List.rdropWhile_eq_self_iff]
    intro hne
    simp [hs _ (List.getLast_mem hne)]

/-! ## The headers of a part -/

theorem quoted_toList (s : String) : (quoted s).toList = quote :: (s.toList ++ [quote]) := by
  unfold quoted
  rw [String.toList_append, String.toList_append]
  rfl

theorem semicolon_notMem_quoted {s : String} (h : Plain s) : ';' ∉ (quoted s).toList := by
  rw [quoted_toList]
  intro hmem
  rcases List.mem_cons.mp hmem with heq | hmem
  · exact absurd heq (by decide)
  · rcases List.mem_append.mp hmem with hmem | heq
    · exact h.2.1 hmem
    · exact absurd (List.mem_singleton.mp heq) (by decide)

theorem getLast?_append_quoted (l : List Char) (s : String) :
    (l ++ (quoted s).toList).getLast? = some quote := by
  rw [quoted_toList, ← List.cons_append, ← List.append_assoc, List.getLast?_concat]

/-- The blank before a parameter goes, and the quotes protect the rest. -/
theorem trim_parameter {c : Char} (hc : isWhitespace c = false) (key : List Char) (s : String) :
    trim (' ' :: (c :: key ++ (quoted s).toList)) = c :: key ++ (quoted s).toList := by
  unfold trim
  rw [trimMatches_cons (by rfl)]
  refine trimMatches_of_trimmed ⟨fun d hd => ?_, fun d hd => ?_⟩
  · cases hd
    exact hc
  · rw [getLast?_append_quoted] at hd
    cases hd
    rfl

theorem trimMatches_quote {s : String} (h : Plain s) :
    String.ofList (trimMatches (· == quote) (quoted s).toList) = s := by
  have hs : ∀ c ∈ s.toList, (c == quote) = false := fun c hc =>
    beq_false_of_ne fun heq => h.1 (heq ▸ hc)
  rw [quoted_toList, trimMatches_quoted (by rfl) hs, String.ofList_toList]

theorem addParameter_name (acc : Option String × Option String) {name : String} (h : Plain name) :
    addParameter acc (" name=" ++ quoted name).toList = (some name, acc.2) := by
  have hpart : (" name=" ++ quoted name).toList =
      ' ' :: ('n' :: "ame=".toList ++ (quoted name).toList) := by
    rw [String.toList_append]
    rfl
  unfold addParameter
  rw [hpart, trim_parameter (by rfl)]
  refine (if_pos (List.isPrefixOf_iff_prefix.mpr (List.prefix_append "name=".toList _))).trans ?_
  exact congrArg (fun s => (some s, acc.2)) (trimMatches_quote h)

theorem addParameter_filename (acc : Option String × Option String) {filename : String}
    (h : Plain filename) :
    addParameter acc (" filename=" ++ quoted filename).toList = (acc.1, some filename) := by
  have hpart : (" filename=" ++ quoted filename).toList =
      ' ' :: ('f' :: "ilename=".toList ++ (quoted filename).toList) := by
    rw [String.toList_append]
    rfl
  have hname : ¬ "name=".toList.isPrefixOf ('f' :: "ilename=".toList ++ (quoted filename).toList) :=
    Bool.false_ne_true
  unfold addParameter
  rw [hpart, trim_parameter (by rfl)]
  refine (if_neg hname).trans ?_
  refine (if_pos (List.isPrefixOf_iff_prefix.mpr (List.prefix_append "filename=".toList _))).trans ?_
  exact congrArg (fun s => (acc.1, some s)) (trimMatches_quote h)

theorem parseContentDisposition_disposition {name : String} {filename : Option String}
    (hname : Plain name) (hfilename : ∀ f ∈ filename, Plain f) :
    parseContentDisposition (disposition name filename) = (some name, filename) := by
  have hparam : ';' ∉ (" name=" ++ quoted name).toList := by
    rw [String.toList_append]
    exact fun h => (List.mem_append.mp h).elim (by decide) (semicolon_notMem_quoted hname)
  have hfirst : ∀ acc, addParameter acc "form-data".toList = acc := fun _ => rfl
  cases filename with
  | none =>
    have hparts : (disposition name none).toList =
        "form-data".toList ++ ';' :: (" name=" ++ quoted name).toList := by
      unfold disposition
      rw [String.append_empty, String.append_assoc, String.toList_append]
      rfl
    unfold parseContentDisposition
    rw [hparts, List.splitOn_append_cons_self_of_not_mem (by decide), List.splitOn_eq_singleton hparam,
      List.foldl_cons, hfirst, List.foldl_cons, addParameter_name _ hname]
    rfl
  | some filename =>
    have hparam' : ';' ∉ (" filename=" ++ quoted filename).toList := by
      rw [String.toList_append]
      exact fun h => (List.mem_append.mp h).elim (by decide)
        (semicolon_notMem_quoted (hfilename filename rfl))
    have hparts : (disposition name (some filename)).toList = "form-data".toList ++ ';' ::
        ((" name=" ++ quoted name).toList ++ ';' :: (" filename=" ++ quoted filename).toList) := by
      unfold disposition
      simp only [String.toList_append, List.append_assoc]
      rfl
    unfold parseContentDisposition
    rw [hparts, List.splitOn_append_cons_self_of_not_mem (by decide),
      List.splitOn_append_cons_self_of_not_mem hparam, List.splitOn_eq_singleton hparam',
      List.foldl_cons, hfirst, List.foldl_cons, addParameter_name _ hname, List.foldl_cons,
      addParameter_filename _ (hfilename filename rfl)]
    rfl

theorem cr_notMem_disposition {name : String} {filename : Option String} (hname : Plain name)
    (hfilename : ∀ f ∈ filename, Plain f) : '\r' ∉ (disposition name filename).toList := by
  have hquoted : ∀ s, Plain s → '\r' ∉ (quoted s).toList := by
    intro s hs hmem
    rw [quoted_toList] at hmem
    rcases List.mem_cons.mp hmem with heq | hmem
    · exact absurd heq (by decide)
    · rcases List.mem_append.mp hmem with hmem | heq
      · exact hs.2.2.1 hmem
      · exact absurd (List.mem_singleton.mp heq) (by decide)
  unfold disposition
  cases filename with
  | none =>
    simp only [String.toList_append, List.mem_append, not_or]
    exact ⟨⟨⟨by decide, by decide⟩, hquoted name hname⟩, by decide⟩
  | some filename =>
    simp only [String.toList_append, List.mem_append, not_or]
    exact ⟨⟨⟨by decide, by decide⟩, hquoted name hname⟩, ⟨by decide, by decide⟩,
      hquoted filename (hfilename filename rfl)⟩

theorem trimmed_disposition (name : String) (filename : Option String) :
    Trimmed isWhitespace (disposition name filename).toList := by
  have hends : ∃ init : List Char, ∃ s, (disposition name filename).toList =
      'f' :: init ++ (quoted s).toList := by
    unfold disposition
    cases filename with
    | none =>
      refine ⟨"orm-data; name=".toList, name, ?_⟩
      rw [String.append_empty, String.toList_append]
      rfl
    | some filename =>
      refine ⟨"orm-data; name=".toList ++ (quoted name).toList ++ "; filename=".toList, filename, ?_⟩
      simp only [String.toList_append, List.append_assoc, List.cons_append]
      rfl
  obtain ⟨init, s, hends⟩ := hends
  rw [hends]
  refine ⟨fun c hc => ?_, fun c hc => ?_⟩
  · cases hc
    rfl
  · rw [getLast?_append_quoted] at hc
    cases hc
    rfl

theorem addHeader_disposition (unicode : String → String) (headers : Table String String)
    (name : String) (filename : Option String) :
    addHeader unicode headers ("Content-Disposition: " ++ disposition name filename).toList =
      headers.insert "content-disposition" (disposition name filename) := by
  have hline : ("Content-Disposition: " ++ disposition name filename).toList =
      "Content-Disposition".toList ++ ':' :: ' ' :: (disposition name filename).toList := by
    rw [String.toList_append]
    rfl
  have hname : toLowercase unicode (String.ofList (trim "Content-Disposition".toList)) =
      "content-disposition" := rfl
  rw [hline, addHeader_line unicode headers (by decide), hname, trim, trimMatches_cons (by rfl),
    trimMatches_of_trimmed (trimmed_disposition name filename), String.ofList_toList]

theorem addHeader_contentType (unicode : String → String) (headers : Table String String)
    (contentType : String) :
    addHeader unicode headers ("Content-Type: " ++ contentType).toList =
      headers.insert "content-type" (String.ofList (trim contentType.toList)) := by
  have hline : ("Content-Type: " ++ contentType).toList =
      "Content-Type".toList ++ ':' :: ' ' :: contentType.toList := by
    rw [String.toList_append]
    rfl
  have hname : toLowercase unicode (String.ofList (trim "Content-Type".toList)) = "content-type" :=
    rfl
  rw [hline, addHeader_line unicode headers (by decide), hname, trim, trimMatches_cons (by rfl)]

namespace SentPart

variable {p : SentPart}

theorem headers_lines (h : p.Clean) : ∀ line ∈ p.headers, line ≠ "" ∧ '\r' ∉ line.toList := by
  have hne : ∀ (key value : String), key ≠ "" → key ++ value ≠ "" := by
    intro key value hkey heq
    exact hkey (String.append_eq_empty_iff.mp heq).1
  unfold headers
  rw [List.forall_mem_cons]
  refine ⟨⟨hne _ _ (by decide), ?_⟩, fun line hline => ?_⟩
  · rw [String.toList_append]
    exact fun hmem => (List.mem_append.mp hmem).elim (by decide)
      (cr_notMem_disposition h.name h.filename)
  · obtain ⟨contentType, htype, rfl⟩ := Option.map_eq_some_iff.mp (Option.mem_toList.mp hline)
    refine ⟨hne _ _ (by decide), ?_⟩
    rw [String.toList_append]
    exact fun hmem => (List.mem_append.mp hmem).elim (by decide) (h.contentType contentType htype).1

theorem parsePartHeaders_headers (unicode : String → String) (h : p.Clean) :
    (parsePartHeaders unicode (utf8 (joinCrlf p.headers))).lookup "content-disposition" =
      some (disposition p.name p.filename) ∧
    (parsePartHeaders unicode (utf8 (joinCrlf p.headers))).lookup "content-type" =
      p.contentType.map fun contentType => String.ofList (trim contentType.toList) := by
  have hne : p.headers ≠ [] := List.cons_ne_nil _ _
  rw [parsePartHeaders_joinCrlf unicode hne fun line hline => (headers_lines h line hline).2]
  unfold headers
  rw [List.map_cons, List.foldl_cons, addHeader_disposition]
  cases p.contentType with
  | none =>
    exact ⟨AList.lookup_insert _, AList.lookup_insert_ne (by decide)⟩
  | some contentType =>
    change (addHeader unicode _ _).lookup _ = _ ∧ (addHeader unicode _ _).lookup _ = _
    rw [addHeader_contentType]
    refine ⟨?_, AList.lookup_insert _⟩
    rw [AList.lookup_insert_ne (by decide)]
    exact AList.lookup_insert _

/-- What the parser adds to the form for a part that the split has cut off. -/
def received (p : SentPart) (form : FormData) : FormData :=
  match p.filename with
  | some filename =>
    form.addFile p.name (.new p.name filename
      ((p.contentType.map fun contentType => String.ofList (trim contentType.toList)).getD
        "application/octet-stream") p.content)
  | none =>
    form.addField p.name (String.ofList (trimEndCrlf (fromUtf8Lossy (p.content ++ crlf)).toList))

theorem addPart_render (unicode : String → String) (form : FormData) (h : p.Clean) :
    addPart unicode form (p.render ++ crlf) = p.received form := by
  have hne : p.headers ≠ [] := List.cons_ne_nil _ _
  have hpart : p.render ++ crlf = utf8 (joinCrlf p.headers) ++ crlf ++ crlf ++ (p.content ++ crlf) := by
    unfold render renderPart
    rw [List.append_assoc]
  have hfind := findDoubleCrlf_headers hne (headers_lines h) (p.content ++ crlf)
  have htake : (p.render ++ crlf).take (utf8 (joinCrlf p.headers)).length =
      utf8 (joinCrlf p.headers) := by
    rw [hpart, List.append_assoc, List.append_assoc, List.take_left]
  have hdrop : (p.render ++ crlf).drop ((utf8 (joinCrlf p.headers)).length + 4) =
      p.content ++ crlf := by
    rw [hpart, ← List.drop_drop, List.append_assoc, List.append_assoc, List.drop_left]
    rfl
  have hstrip : stripTrailingCrlf (p.content ++ crlf) = p.content := by
    unfold stripTrailingCrlf
    rw [if_pos (List.isSuffixOf_iff_suffix.mpr (List.suffix_append ..)), List.length_append]
    exact List.take_left
  obtain ⟨hdisposition, htype⟩ := parsePartHeaders_headers unicode h
  rw [← hpart] at hfind
  unfold addPart received
  rw [if_neg (by simp [crlf]), hfind]
  dsimp only
  rw [htake, hdrop, hdisposition]
  dsimp only
  rw [parseContentDisposition_disposition h.name h.filename, htype, hstrip]
  cases p.filename <;> rfl

end SentPart

/-! ## Bodies -/

theorem foldl_addPart_render (unicode : String → String) {parts : List SentPart}
    (hclean : ∀ p ∈ parts, p.Clean) (form : FormData) :
    ((parts.map SentPart.render).map (· ++ crlf)).foldl (addPart unicode) form =
      parts.foldl (fun form p => p.received form) form := by
  induction parts generalizing form with
  | nil => rfl
  | cons p parts ih =>
    obtain ⟨hp, hrest⟩ := List.forall_mem_cons.mp hclean
    rw [List.map_cons, List.map_cons, List.foldl_cons, SentPart.addPart_render unicode form hp,
      ih hrest, List.foldl_cons]

/-- What follows the last part is too short to have headers. -/
theorem foldl_addPart_of_short (unicode : String → String) (form : FormData)
    {short : List (List UInt8)} (h : ∀ part ∈ short, part.length < 4) :
    short.foldl (addPart unicode) form = form := by
  induction short with
  | nil => rfl
  | cons part short ih =>
    obtain ⟨hpart, hrest⟩ := List.forall_mem_cons.mp h
    rw [List.foldl_cons, addPart_of_short unicode _ hpart, ih hrest]

/-- The parser receives the parts that were sent one after the other. -/
theorem parseMultipart_renderBody (unicode : String → String) {boundary : String}
    (hboundary : NoBreaks boundary) {parts : List SentPart} (hclean : ∀ p ∈ parts, p.Clean)
    (hfree : ∀ p ∈ parts, ¬ utf8 ("--" ++ boundary) <:+: p.render) :
    parseMultipart unicode (renderBody (utf8 ("--" ++ boundary)) (parts.map SentPart.render))
      boundary = parts.foldl (fun form p => p.received form) .new := by
  have hne : utf8 ("--" ++ boundary) ≠ [] := by
    rw [utf8_append]
    simp [utf8]
  have hnotMem : ∀ c, c ∉ "--".toList → c ∉ boundary.toList → c ∉ ("--" ++ boundary).toList := by
    intro c hdashes hc hmem
    rw [String.toList_append] at hmem
    exact (List.mem_append.mp hmem).elim hdashes hc
  have hcr : 13 ∉ utf8 ("--" ++ boundary) :=
    notMem_utf8 (by decide) (hnotMem _ (by decide) hboundary.1)
  have hlf : 10 ∉ utf8 ("--" ++ boundary) :=
    notMem_utf8 (by decide) (hnotMem _ (by decide) hboundary.2)
  unfold parseMultipart
  cases hparts : parts with
  | nil => exact foldl_addPart_of_short unicode _ (length_of_mem_splitMultipart hne)
  | cons p rest =>
    rw [← hparts, splitMultipart_renderBody hne hcr hlf (List.forall_mem_map.mpr hfree)
      (by simp [hparts]), foldl_addPart_render unicode hclean]

end Hypern.Http
