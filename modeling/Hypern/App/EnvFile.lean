import Hypern.App.Config

/-! The files that a `Config` reads: a line `key=value` is an entry, with blanks around the key and
the value left out, and quotes around the value. -/

namespace Hypern.App

open Lib Python

/-! ## Reading -/

def isQuote (c : Char) : Bool := c == '"' || c == '\''

/-- Reading a text file turns every line end into a line feed. -/
def universalNewlines : List Char → List Char
  | '\r' :: '\n' :: s => '\n' :: universalNewlines s
  | '\r' :: s => '\n' :: universalNewlines s
  | c :: s => c :: universalNewlines s
  | [] => []

def readLine (fileValues : Dict String String) (line : List Char) : Dict String String :=
  let line := strip line
  if '=' ∈ line ∧ line.head? ≠ some '#' then
    match splitOnce '=' line with
    | some (key, value) =>
      fileValues.setItem (String.ofList (strip key))
        (String.ofList (((strip value).dropWhile isQuote).rdropWhile isQuote))
    | none => fileValues
  else fileValues

/-- `_read_file`. The line ends and an empty last line do not matter to `strip`. -/
def readFile (text : List Char) : Dict String String :=
  ((universalNewlines text).splitOn '\n').foldl readLine Dict.empty

/-! ## Writing -/

/-- A line of a file: an entry with quotes around its value, or a comment or blank line. -/
inductive Line
  | entry (key : List Char) (quote : Char) (value : List Char)
  | other (text : List Char)

namespace Line

def render : Line → List Char
  | .entry key quote value => key ++ '=' :: (quote :: value ++ [quote])
  | .other text => text

def OneLine (text : List Char) : Prop := '\n' ∉ text ∧ '\r' ∉ text

/-- What can be written: a key without blanks at its ends that is no comment, and a value that
neither begins nor ends with a quote. -/
def Writable : Line → Prop
  | .entry key quote value =>
    OneLine key ∧ '=' ∉ key ∧ key.head? ≠ some '#' ∧ (∀ c, key.head? = some c → isSpace c = false) ∧
      (∀ c, key.getLast? = some c → isSpace c = false) ∧ isQuote quote = true ∧ OneLine value ∧
      (∀ c, value.head? = some c → isQuote c = false) ∧ ∀ c, value.getLast? = some c → isQuote c = false
  | .other text => OneLine text ∧ ('=' ∉ strip text ∨ (strip text).head? = some '#')

def set (d : Dict String String) : Line → Dict String String
  | .entry key _ value => d.setItem (String.ofList key) (String.ofList value)
  | .other _ => d

theorem quote_cases {quote : Char} (h : isQuote quote = true) : quote = '"' ∨ quote = '\'' := by
  simpa [isQuote] using h

theorem oneLine_render {line : Line} (h : line.Writable) : OneLine line.render := by
  cases line with
  | entry key quote value =>
    obtain ⟨hkey, -, -, -, -, hquote, hvalue, -⟩ := h
    unfold OneLine render at *
    rcases quote_cases hquote with rfl | rfl <;> simp [hkey, hvalue]
  | other text => exact h.1

theorem isSpace_of_isQuote {quote : Char} (h : isQuote quote = true) : isSpace quote = false := by
  rcases quote_cases h with rfl | rfl <;> decide

theorem strip_quoted {quote : Char} (h : isQuote quote = true) (value : List Char) :
    strip (quote :: value ++ [quote]) = quote :: value ++ [quote] := by
  have hspace := isSpace_of_isQuote h
  refine trim_eq_self (fun c hc => ?_) (fun c hc => ?_)
  · rw [← Option.some.inj hc]
    exact hspace
  · rw [List.getLast?_concat] at hc
    rw [← Option.some.inj hc]
    exact hspace

/-- An entry has no blanks around it: it ends in a quote, and begins with its key or the `=`. -/
theorem strip_entry {key : List Char} {quote : Char} (hquote : isQuote quote = true)
    (hkey : ∀ c, key.head? = some c → isSpace c = false) (value : List Char) :
    strip (key ++ '=' :: (quote :: value ++ [quote])) = key ++ '=' :: (quote :: value ++ [quote]) := by
  refine trim_eq_self (fun c hc => ?_) (fun c hc => ?_)
  · cases key with
    | nil =>
      obtain rfl : '=' = c := Option.some.inj hc
      decide
    | cons k key => exact hkey c hc
  · have hconcat : key ++ '=' :: (quote :: value ++ [quote]) = (key ++ '=' :: quote :: value) ++ [quote] := by
      simp
    rw [hconcat, List.getLast?_concat] at hc
    rw [← Option.some.inj hc]
    exact isSpace_of_isQuote hquote

theorem readLine_render {line : Line} (h : line.Writable) (d : Dict String String) :
    readLine d line.render = line.set d := by
  cases line with
  | entry key quote value =>
    obtain ⟨-, hequals, hhash, hkeyHead, hkeyLast, hquote, -, hvalueHead, hvalueLast⟩ := h
    have hhead : (key ++ '=' :: (quote :: value ++ [quote])).head? ≠ some '#' := by
      cases key with
      | nil => simp
      | cons k key => simpa using hhash
    have hkey : strip key = key := trim_eq_self hkeyHead hkeyLast
    have hvalue : ((quote :: value ++ [quote]).dropWhile isQuote).rdropWhile isQuote = value := by
      have haround := trim_around [quote] [quote] (by simpa using hquote) (by simpa using hquote)
        hvalueHead hvalueLast
      simpa using haround
    unfold readLine render set
    simp only [strip_entry hquote hkeyHead value]
    rw [if_pos ⟨by simp, hhead⟩, splitOnce_append hequals]
    simp only
    rw [hkey, strip_quoted hquote, hvalue]
  | other text =>
    unfold readLine render set
    refine if_neg ?_
    rintro ⟨hequals, hhash⟩
    rcases h.2 with hnone | hcomment
    · exact hnone hequals
    · exact hhash hcomment

end Line

def renderFile (lines : List Line) : List Char := lines.flatMap fun line => line.render ++ ['\n']

theorem universalNewlines_eq_self {s : List Char} (h : '\r' ∉ s) : universalNewlines s = s := by
  induction s with
  | nil => rfl
  | cons c s ih =>
    rw [List.mem_cons, not_or] at h
    rw [universalNewlines, ih h.2]
    · rintro s' rfl
      exact absurd rfl h.1
    · rintro rfl
      exact absurd rfl h.1

theorem splitOn_renderFile {lines : List Line} (h : ∀ line ∈ lines, line.Writable) :
    (renderFile lines).splitOn '\n' = lines.map Line.render ++ [[]] := by
  induction lines with
  | nil => rfl
  | cons line lines ih =>
    obtain ⟨hline, hrest⟩ := List.forall_mem_cons.mp h
    have hsplit := ih hrest
    unfold renderFile at hsplit ⊢
    rw [List.flatMap_cons, List.append_assoc, List.singleton_append, List.splitOn_append_cons_self,
      List.splitOn_eq_singleton (Line.oneLine_render hline).1, hsplit]
    rfl

/-- A file that was written line by line reads back as its entries, the later of two with one key
standing; comments and blank lines between them make no difference. -/
theorem readFile_renderFile {lines : List Line} (h : ∀ line ∈ lines, line.Writable) :
    readFile (renderFile lines) = lines.foldl Line.set Dict.empty := by
  have hreturns : '\r' ∉ renderFile lines := by
    unfold renderFile
    simp only [List.mem_flatMap, List.mem_append, List.mem_singleton, not_exists, not_and, not_or]
    exact fun line hline => ⟨(Line.oneLine_render (h line hline)).2, by decide⟩
  have hfold : (lines.map Line.render).foldl readLine Dict.empty = lines.foldl Line.set Dict.empty := by
    rw [List.foldl_map]
    apply List.foldl_ext
    intro d line hline
    exact Line.readLine_render (h line hline) d
  unfold readFile
  rw [universalNewlines_eq_self hreturns, splitOn_renderFile h, List.foldl_append, hfold]
  rfl

theorem readFile_renderFile_twoKeys :
    readFile (renderFile [.other ['#', ' ', 'k'], .entry ['K'] '"' " a=b ".toList, .other [],
      .entry ['D'] '\'' "1".toList]) =
      [Line.entry ['K'] '"' " a=b ".toList, .entry ['D'] '\'' "1".toList].foldl Line.set Dict.empty := by
  have hcomment : Line.Writable (.other ['#', ' ', 'k']) :=
    ⟨by simp [Line.OneLine], .inr (by decide)⟩
  have hblank : Line.Writable (.other []) := ⟨by simp [Line.OneLine], .inl (by decide)⟩
  have hentries : Line.Writable (.entry ['K'] '"' " a=b ".toList) ∧
      Line.Writable (.entry ['D'] '\'' "1".toList) := by
    simp [Line.Writable, Line.OneLine, isQuote, isSpace]
  exact readFile_renderFile (List.forall_mem_cons.mpr ⟨hcomment, List.forall_mem_cons.mpr
    ⟨hentries.1, List.forall_mem_cons.mpr ⟨hblank, List.forall_mem_singleton.mpr hentries.2⟩⟩⟩)

end Hypern.App
