import Hypern.Http.MultipartRoundTrip

/-! Forms of files and forms of text fields, as they come out of the parser. -/

namespace Hypern.Http

open Lib

theorem parseMultipart_sent {α : Type} (sent : α → SentPart) (unicode : String → String)
    {boundary : String} {parts : List α} (hboundary : NoBreaks boundary)
    (hclean : ∀ p ∈ parts, (sent p).Clean)
    (hfree : ∀ p ∈ parts, ¬ utf8 ("--" ++ boundary) <:+: (sent p).render) :
    parseMultipart unicode
      (renderBody (utf8 ("--" ++ boundary)) (parts.map fun p => (sent p).render)) boundary =
        (parts.map sent).foldl (fun form p => p.received form) .new := by
  have hrender : (parts.map fun p => (sent p).render) = (parts.map sent).map SentPart.render := by
    rw [List.map_map]
    rfl
  rw [hrender]
  exact parseMultipart_renderBody unicode hboundary (List.forall_mem_map.mpr hclean)
    (List.forall_mem_map.mpr hfree)

/-! ## Files -/

structure FilePart where
  name : String
  filename : String
  contentType : String
  content : List UInt8

/-- A name without files has no entry. -/
def filed (files : List UploadedFile) : Option (List UploadedFile) :=
  if files = [] then none else some files

theorem getD_filed (files : List UploadedFile) : (filed files).getD [] = files := by
  unfold filed
  split_ifs with h
  · exact h.symm
  · rfl

theorem filed_concat (files : List UploadedFile) (file : UploadedFile) :
    filed (files ++ [file]) = some (files ++ [file]) := if_neg (by simp)

namespace FilePart

def sent (p : FilePart) : SentPart := ⟨p.name, some p.filename, some p.contentType, p.content⟩

def uploaded (p : FilePart) : UploadedFile := .new p.name p.filename p.contentType p.content

/-- The parser trims the content type. -/
def stored (p : FilePart) : UploadedFile :=
  .new p.name p.filename (String.ofList (trim p.contentType.toList)) p.content

def under (name : String) (parts : List FilePart) : List FilePart :=
  parts.filter fun p => decide (p.name = name)

theorem sent_clean {p : FilePart} (hname : Plain p.name) (hfilename : Plain p.filename)
    (hcontentType : NoBreaks p.contentType) : p.sent.Clean := by
  refine ⟨hname, fun filename h => ?_, fun contentType h => ?_⟩
  · cases h
    exact hfilename
  · cases h
    exact hcontentType

theorem received_files (parts : List FilePart) :
    let form := (parts.map sent).foldl (fun form p => p.received form) .new
    (∀ name, form.fields.lookup name = none) ∧
      ∀ name, form.files.lookup name = filed ((under name parts).map stored) := by
  induction parts using List.reverseRecOn with
  | nil => exact ⟨fun _ => rfl, fun _ => rfl⟩
  | append_singleton parts p ih =>
    obtain ⟨hfields, hfiles⟩ := ih
    rw [List.map_append, List.foldl_append]
    generalize (parts.map sent).foldl (fun form p => p.received form) .new = form at hfields hfiles ⊢
    refine ⟨hfields, fun name => ?_⟩
    refine (Table.lookup_insert_eq _ p.name name _).trans ?_
    unfold under
    rw [List.filter_append, List.map_append]
    by_cases hname : name = p.name
    · subst hname
      have hlast : ([p].filter fun q => decide (q.name = p.name)) = [p] := by simp
      rw [if_pos rfl, hlast, List.map_singleton, filed_concat]
      change some ((form.files.lookup p.name).getD [] ++ [stored p]) = _
      rw [hfiles, getD_filed]
      rfl
    · have hlast : ([p].filter fun q => decide (q.name = name)) = [] := by simp [Ne.symm hname]
      rw [if_neg hname, hlast, List.map_nil, List.append_nil]
      exact hfiles name

theorem stored_of_trimmed {p : FilePart} (h : Trimmed isWhitespace p.contentType.toList) :
    p.stored = p.uploaded := by
  unfold stored trim
  rw [trimMatches_of_trimmed h, String.ofList_toList]
  rfl

variable {boundary : String} {parts : List FilePart}

theorem parse_files (unicode : String → String) (hboundary : NoBreaks boundary)
    (hclean : ∀ p ∈ parts, p.sent.Clean)
    (hfree : ∀ p ∈ parts, ¬ utf8 ("--" ++ boundary) <:+: p.sent.render) :
    let form := parseMultipart unicode
      (renderBody (utf8 ("--" ++ boundary)) (parts.map fun p => p.sent.render)) boundary
    (∀ name, form.fields.lookup name = none) ∧
      ∀ name, form.files.lookup name = filed ((under name parts).map stored) := by
  dsimp only
  rw [parseMultipart_sent sent unicode hboundary hclean hfree]
  exact received_files parts

/-- Files come out under their names, in order, as they were sent. -/
theorem files_round_trip (unicode : String → String) (hboundary : NoBreaks boundary)
    (hclean : ∀ p ∈ parts, p.sent.Clean)
    (htrimmed : ∀ p ∈ parts, Trimmed isWhitespace p.contentType.toList)
    (hfree : ∀ p ∈ parts, ¬ utf8 ("--" ++ boundary) <:+: p.sent.render) :
    let form := parseMultipart unicode
      (renderBody (utf8 ("--" ++ boundary)) (parts.map fun p => p.sent.render)) boundary
    (∀ name, form.fields.lookup name = none) ∧
      ∀ name, form.files.lookup name = filed ((under name parts).map uploaded) := by
  obtain ⟨hfields, hfiles⟩ := parse_files unicode hboundary hclean hfree
  refine ⟨hfields, fun name => (hfiles name).trans (congrArg filed ?_)⟩
  exact List.map_congr_left fun p hp => stored_of_trimmed (htrimmed p (List.mem_of_mem_filter hp))

/-- A file that ends in a line break of its own. -/
def sampleFile : FilePart := ⟨"doc", "a.txt", "text/plain", [104, 105, 13, 10]⟩

/-- Two files of one name, and one of another name between them. -/
def sampleFiles : List FilePart :=
  [sampleFile, ⟨"icon", "i.png", "image/png", [137, 80]⟩, ⟨"doc", "b.txt", "text/plain", []⟩]

theorem sampleFile_round_trip :
    (parseMultipart id
      (renderBody (utf8 ("--" ++ "X")) (sampleFiles.map fun p => p.sent.render)) "X").files.lookup
        "doc" = some [sampleFile.uploaded, uploaded ⟨"doc", "b.txt", "text/plain", []⟩] := by
  have hclean : ∀ p ∈ sampleFiles, p.sent.Clean := by
    simp only [sampleFiles, List.forall_mem_cons, List.not_mem_nil, false_imp_iff, forall_true_iff,
      and_true]
    exact ⟨sent_clean (by decide) (by decide) (by decide),
      sent_clean (by decide) (by decide) (by decide), sent_clean (by decide) (by decide) (by decide)⟩
  have htrimmed : ∀ p ∈ sampleFiles, Trimmed isWhitespace p.contentType.toList := by
    simp only [sampleFiles, List.forall_mem_cons, List.not_mem_nil, false_imp_iff, forall_true_iff,
      and_true]
    refine ⟨⟨fun c hc => ?_, fun c hc => ?_⟩, ⟨fun c hc => ?_, fun c hc => ?_⟩, fun c hc => ?_,
      fun c hc => ?_⟩ <;> cases hc <;> rfl
  exact (files_round_trip id (by decide) hclean htrimmed (by decide +kernel)).2 "doc"

end FilePart

/-- The parser takes more than blanks off a content type. -/
theorem tab_is_trimmed :
    ¬ ∀ (boundary : String) (parts : List FilePart), NoBreaks boundary →
      (∀ p ∈ parts, p.sent.Clean) →
      (∀ p ∈ parts, Trimmed (· == ' ') p.contentType.toList) →
      (∀ p ∈ parts, ¬ utf8 ("--" ++ boundary) <:+: p.sent.render) →
      ∀ name, (parseMultipart id
        (renderBody (utf8 ("--" ++ boundary)) (parts.map fun p => p.sent.render)) boundary).files.lookup
          name = filed ((FilePart.under name parts).map FilePart.uploaded) := by
  intro h
  have hclean : ∀ p ∈ [(⟨"doc", "a.txt", "\ttext/plain", []⟩ : FilePart)], p.sent.Clean :=
    List.forall_mem_singleton.mpr (FilePart.sent_clean (by decide) (by decide) (by decide))
  have hblank : ∀ p ∈ [(⟨"doc", "a.txt", "\ttext/plain", []⟩ : FilePart)],
      Trimmed (· == ' ') p.contentType.toList := by
    refine List.forall_mem_singleton.mpr ⟨fun c hc => ?_, fun c hc => ?_⟩ <;> cases hc <;> rfl
  have hfree : ∀ p ∈ [(⟨"doc", "a.txt", "\ttext/plain", []⟩ : FilePart)],
      ¬ utf8 ("--" ++ "X") <:+: p.sent.render := List.forall_mem_singleton.mpr (by decide +kernel)
  have hclaimed := h "X" _ (by decide) hclean hblank hfree "doc"
  rw [(FilePart.parse_files id (by decide) hclean hfree).2 "doc"] at hclaimed
  have htypes := congrArg (fun files => (files.getD []).map UploadedFile.contentType) hclaimed
  rw [getD_filed, getD_filed] at htypes
  exact absurd htypes (by decide)

/-! ## Text fields -/

structure TextPart where
  name : String
  contentType : Option String
  value : String

/-- What is cut off the end of a text is whole line breaks. -/
theorem length_dropCrlfs_le (s : List Char) : (dropCrlfs s).length ≤ s.length := by
  fun_induction dropCrlfs s with
  | case1 rest ih =>
    simp only [List.length_cons]
    omega
  | case2 => exact Nat.le_refl _

theorem trimEndCrlf_eq_self_iff (s : List Char) :
    trimEndCrlf s = s ↔ ¬ ['\r', '\n'] <:+ s := by
  unfold trimEndCrlf
  rw [List.reverse_eq_iff, ← List.reverse_prefix]
  generalize s.reverse = t
  change dropCrlfs t = t ↔ ¬ ['\n', '\r'] <+: t
  constructor
  · rintro h ⟨rest, rfl⟩
    have hle := length_dropCrlfs_le rest
    have hlength := congrArg List.length h
    rw [List.cons_append, List.singleton_append, dropCrlfs] at hlength
    simp only [List.length_cons] at hlength
    omega
  · intro h
    rw [dropCrlfs]
    rintro rest rfl
    exact h ⟨rest, rfl⟩

theorem trimEndCrlf_append (s : List Char) :
    trimEndCrlf (s ++ ['\r', '\n']) = trimEndCrlf s := by
  unfold trimEndCrlf
  rw [List.reverse_append]
  rfl

namespace TextPart

def sent (p : TextPart) : SentPart := ⟨p.name, none, p.contentType, utf8 p.value⟩

/-- The parser takes every line break off the end of a value. -/
def stored (p : TextPart) : String := String.ofList (trimEndCrlf p.value.toList)

/-- The value ends in a line break of its own. -/
def EndsInCrlf (p : TextPart) : Prop := ['\r', '\n'] <:+ p.value.toList

instance (p : TextPart) : Decidable p.EndsInCrlf := inferInstanceAs (Decidable (_ <:+ _))

def under (name : String) (parts : List TextPart) : List TextPart :=
  parts.filter fun p => decide (p.name = name)

theorem sent_clean {p : TextPart} (hname : Plain p.name)
    (hcontentType : ∀ contentType ∈ p.contentType, NoBreaks contentType) : p.sent.Clean :=
  ⟨hname, nofun, hcontentType⟩

theorem stored_eq_value_iff (p : TextPart) : p.stored = p.value ↔ ¬ p.EndsInCrlf := by
  unfold stored EndsInCrlf
  rw [← trimEndCrlf_eq_self_iff, ← String.toList_inj, String.toList_ofList]

theorem received_sent (p : TextPart) (form : FormData) :
    p.sent.received form = form.addField p.name p.stored := by
  have hbody : fromUtf8Lossy (utf8 p.value ++ crlf) = p.value ++ "\r\n" := by
    have hutf8 : utf8 p.value ++ crlf = utf8 (p.value ++ "\r\n") := by
      rw [utf8_append]
      rfl
    rw [hutf8, fromUtf8Lossy_utf8]
  have hstored : String.ofList (trimEndCrlf (p.value ++ "\r\n").toList) = p.stored := by
    rw [String.toList_append]
    exact congrArg String.ofList (trimEndCrlf_append _)
  change form.addField p.name (String.ofList (trimEndCrlf (fromUtf8Lossy (utf8 p.value ++ crlf)).toList)) = _
  rw [hbody, hstored]

/-- Of the values of a name the last one stays. -/
theorem received_fields (parts : List TextPart) (name : String) :
    ((parts.map sent).foldl (fun form p => p.received form) FormData.new).fields.lookup name =
      (under name parts).getLast?.map stored := by
  induction parts using List.reverseRecOn with
  | nil => rfl
  | append_singleton parts p ih =>
    rw [List.map_append, List.foldl_append, List.map_singleton, List.foldl_cons, List.foldl_nil,
      received_sent]
    refine (Table.lookup_insert_eq ..).trans ?_
    unfold under at ih ⊢
    rw [List.filter_append, ih]
    by_cases hname : name = p.name
    · simp [hname]
    · simp [hname, Ne.symm hname]

/-- Under each name the form holds the values that were sent with it. -/
def Delivers (form : FormData) (parts : List TextPart) : Prop :=
  ∀ name, (form.fields.lookup name).toList = (under name parts).map value

theorem last_stored_iff (parts : List TextPart) :
    (parts.getLast?.map stored).toList = parts.map value ↔
      parts.length ≤ 1 ∧ ∀ p ∈ parts, ¬ p.EndsInCrlf := by
  cases parts with
  | nil => simp
  | cons p rest =>
    cases rest with
    | nil => simp [stored_eq_value_iff]
    | cons q rest =>
      constructor
      · intro h
        have hlength := congrArg List.length h
        simp [List.getLast?_cons] at hlength
      · rintro ⟨h, -⟩
        simp at h

theorem count_name (name : String) (parts : List TextPart) :
    (parts.map TextPart.name).count name = (under name parts).length := by
  unfold under
  rw [List.count, List.countP_map, List.countP_eq_length_filter]
  rfl

variable {boundary : String} {parts : List TextPart}

theorem parse_fields (unicode : String → String) (hboundary : NoBreaks boundary)
    (hclean : ∀ p ∈ parts, p.sent.Clean)
    (hfree : ∀ p ∈ parts, ¬ utf8 ("--" ++ boundary) <:+: p.sent.render) (name : String) :
    (parseMultipart unicode (renderBody (utf8 ("--" ++ boundary))
      (parts.map fun p => p.sent.render)) boundary).fields.lookup name =
        (under name parts).getLast?.map stored := by
  rw [parseMultipart_sent sent unicode hboundary hclean hfree]
  exact received_fields parts name

/-- Values come out as they were sent when no name is sent twice and none ends in a line break. -/
theorem texts_round_trip_iff (unicode : String → String) (hboundary : NoBreaks boundary)
    (hclean : ∀ p ∈ parts, p.sent.Clean)
    (hfree : ∀ p ∈ parts, ¬ utf8 ("--" ++ boundary) <:+: p.sent.render) :
    Delivers (parseMultipart unicode
      (renderBody (utf8 ("--" ++ boundary)) (parts.map fun p => p.sent.render)) boundary) parts ↔
        (parts.map TextPart.name).Nodup ∧ ∀ p ∈ parts, ¬ p.EndsInCrlf := by
  have hnames : Delivers (parseMultipart unicode
      (renderBody (utf8 ("--" ++ boundary)) (parts.map fun p => p.sent.render)) boundary) parts ↔
        ∀ name, (under name parts).length ≤ 1 ∧ ∀ p ∈ under name parts, ¬ p.EndsInCrlf :=
    forall_congr' fun name => by
      rw [parse_fields unicode hboundary hclean hfree, last_stored_iff]
  rw [hnames, List.nodup_iff_count_le_one]
  constructor
  · intro h
    refine ⟨fun name => (count_name name parts).trans_le (h name).1, fun p hp => ?_⟩
    exact (h p.name).2 p (List.mem_filter.mpr ⟨hp, decide_eq_true rfl⟩)
  · rintro ⟨hnodup, hends⟩ name
    refine ⟨(count_name name parts).symm.trans_le (hnodup name), fun p hp => ?_⟩
    exact hends p (List.mem_of_mem_filter hp)

/-- An empty value, sent with a content type, one with a line break in it, and one more. -/
def sampleTexts : List TextPart :=
  [⟨"note", some "text/plain", ""⟩, ⟨"lines", none, "a\r\nb"⟩, ⟨"tag", none, "c"⟩]

theorem sampleText_round_trip :
    Delivers (parseMultipart id
      (renderBody (utf8 ("--" ++ "X")) (sampleTexts.map fun p => p.sent.render)) "X") sampleTexts := by
  have hclean : ∀ p ∈ sampleTexts, p.sent.Clean := by
    simp only [sampleTexts, List.forall_mem_cons, List.not_mem_nil, false_imp_iff, forall_true_iff,
      and_true]
    exact ⟨sent_clean (by decide) (by decide), sent_clean (by decide) nofun,
      sent_clean (by decide) nofun⟩
  exact (texts_round_trip_iff id (by decide) hclean (by decide +kernel)).mpr
    ⟨by decide, by decide⟩

/-- Of two values under one name the first is lost. -/
def sampleTags : List TextPart := [⟨"tag", none, "a"⟩, ⟨"tag", none, "b"⟩]

theorem sampleTags_clean : ∀ p ∈ sampleTags, p.sent.Clean := by
  have hname : Plain "tag" := by decide
  have hclean : ∀ value, (⟨"tag", none, value⟩ : TextPart).sent.Clean :=
    fun value => sent_clean hname nofun
  exact List.forall_mem_cons.mpr ⟨hclean _, List.forall_mem_singleton.mpr (hclean _)⟩

theorem texts_lost :
    ¬ ∀ (boundary : String) (parts : List TextPart), NoBreaks boundary →
      (∀ p ∈ parts, p.sent.Clean) →
      (∀ p ∈ parts, ¬ utf8 ("--" ++ boundary) <:+: p.sent.render) →
      Delivers (parseMultipart id
        (renderBody (utf8 ("--" ++ boundary)) (parts.map fun p => p.sent.render)) boundary) parts := by
  intro h
  have hfree : ∀ p ∈ sampleTags, ¬ utf8 ("--" ++ "X") <:+: p.sent.render := by decide +kernel
  have hclaimed := h "X" sampleTags (by decide) sampleTags_clean hfree "tag"
  rw [parse_fields id (by decide) sampleTags_clean hfree] at hclaimed
  exact absurd hclaimed (by decide)

end TextPart

end Hypern.Http
