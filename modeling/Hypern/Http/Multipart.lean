import Hypern.Lib.Search
import Hypern.Lib.Table
import Hypern.Lib.Utf8
import Mathlib.Data.List.DropRight

/-! `multipart.rs`: the parser of multipart bodies. A place in the body is modelled by the bytes
that follow it. -/

namespace Hypern.Http

open Lib

structure UploadedFile where
  filename : String
  name : String
  contentType : String
  size : Nat
  content : List UInt8

def UploadedFile.new (name filename contentType : String) (content : List UInt8) : UploadedFile :=
  ⟨filename, name, contentType, content.length, content⟩

structure FormData where
  fields : Table String String
  files : Table String (List UploadedFile)

namespace FormData

def new : FormData := ⟨∅, ∅⟩

def addField (form : FormData) (name value : String) : FormData :=
  { form with fields := form.fields.insert name value }

def addFile (form : FormData) (name : String) (file : UploadedFile) : FormData :=
  { form with files := form.files.insert name ((form.files.lookup name).getD [] ++ [file]) }

end FormData

/-! ## Text -/

/-- The Unicode property `White_Space`. -/
def isWhitespace (c : Char) : Bool :=
  (decide (9 ≤ c.toNat) && decide (c.toNat ≤ 13)) ||
    (decide (0x2000 ≤ c.toNat) && decide (c.toNat ≤ 0x200A)) ||
    [0x20, 0x85, 0xA0, 0x1680, 0x2028, 0x2029, 0x202F, 0x205F, 0x3000].contains c.toNat

def trimMatches (p : Char → Bool) (s : List Char) : List Char := (s.dropWhile p).rdropWhile p

def trim : List Char → List Char := trimMatches isWhitespace

def quote : Char := Char.ofNat 0x22

/-- `split("\r\n")` -/
def splitCrlf : List Char → List (List Char)
  | [] => [[]]
  | '\r' :: '\n' :: rest => [] :: splitCrlf rest
  | c :: rest => (splitCrlf rest).modifyHead (c :: ·)

def dropCrlfs : List Char → List Char
  | '\n' :: '\r' :: rest => dropCrlfs rest
  | s => s

/-- `trim_end_matches("\r\n")` -/
def trimEndCrlf (s : List Char) : List Char := (dropCrlfs s.reverse).reverse

/-- `unicode` lowers the texts that are not ASCII. -/
def toLowercase (unicode : String → String) (s : String) : String :=
  if s.toList.all fun c => decide (c.toNat < 0x80) then String.ofList (s.toList.map Char.toLower)
  else unicode s

/-! ## Parts -/

def crlf : List UInt8 := [13, 10]

def dashes : List UInt8 := [45, 45]

/-- `windows(0)` panics; no delimiter is empty. -/
def findBytes (haystack needle : List UInt8) : Option Nat :=
  if needle = [] then none else findList needle haystack

theorem findBytes_of_ne_nil {needle : List UInt8} (h : needle ≠ []) (haystack : List UInt8) :
    findBytes haystack needle = findList needle haystack := if_neg h

def findDoubleCrlf (data : List UInt8) : Option Nat := findBytes data (crlf ++ crlf)

theorem findDoubleCrlf_eq_findList (data : List UInt8) :
    findDoubleCrlf data = findList (crlf ++ crlf) data := findBytes_of_ne_nil (by decide) data

def skipCrlf (rest : List UInt8) : List UInt8 :=
  if 2 < rest.length ∧ rest.take 2 = crlf then rest.drop 2 else rest

theorem length_skipCrlf_le (rest : List UInt8) : (skipCrlf rest).length ≤ rest.length := by
  unfold skipCrlf
  split_ifs
  · exact (List.drop_sublist 2 rest).length_le
  · exact Nat.le_refl _

/-- The loop of `split_multipart` from `start` on. -/
def splitFrom (boundary rest : List UInt8) : List (List UInt8) :=
  match _h : findBytes rest boundary with
  | some stop =>
    let after := rest.drop (stop + boundary.length)
    -- the final boundary
    if dashes.isPrefixOf after then [rest.take stop]
    else rest.take stop :: splitFrom boundary (skipCrlf after)
  | none => if rest = [] then [] else [rest]
termination_by rest.length
decreasing_by
  have hne : boundary ≠ [] ∧ rest ≠ [] := by
    unfold findBytes at _h
    split_ifs at _h with hempty
    refine ⟨hempty, ?_⟩
    rintro rfl
    cases _h
  have hboundary := List.length_pos_iff.mpr hne.1
  have hrest := List.length_pos_iff.mpr hne.2
  refine Nat.lt_of_le_of_lt (length_skipCrlf_le _) ?_
  rw [List.length_drop]
  omega

theorem splitFrom_of_some {boundary rest : List UInt8} {stop : Nat}
    (h : findBytes rest boundary = some stop) :
    splitFrom boundary rest =
      if dashes.isPrefixOf (rest.drop (stop + boundary.length)) then [rest.take stop]
      else rest.take stop :: splitFrom boundary (skipCrlf (rest.drop (stop + boundary.length))) := by
  rw [splitFrom]
  split
  · next found hfound =>
    rw [Option.some.inj (hfound.symm.trans h)]
  · next hnone =>
    rw [hnone] at h
    cases h

theorem splitFrom_of_none {boundary rest : List UInt8} (h : findBytes rest boundary = none) :
    splitFrom boundary rest = if rest = [] then [] else [rest] := by
  rw [splitFrom]
  split
  · next found hfound =>
    rw [h] at hfound
    cases hfound
  · rfl

def splitMultipart (body boundary : List UInt8) : List (List UInt8) :=
  match findBytes body boundary with
  | some pos => splitFrom boundary (skipCrlf (body.drop (pos + boundary.length)))
  | none => splitFrom boundary body

section

variable (unicode : String → String)

/-- One turn of the loop of `parse_part_headers`. -/
def addHeader (headers : Table String String) (line : List Char) : Table String String :=
  match findList [':'] line with
  | some colonPos =>
    headers.insert (toLowercase unicode (String.ofList (trim (line.take colonPos))))
      (String.ofList (trim (line.drop (colonPos + 1))))
  | none => headers

def parsePartHeaders (headerBytes : List UInt8) : Table String String :=
  (splitCrlf (fromUtf8Lossy headerBytes).toList).foldl (addHeader unicode) ∅

/-- One turn of the loop of `parse_content_disposition`. -/
def addParameter (acc : Option String × Option String) (part : List Char) :
    Option String × Option String :=
  let part := trim part
  if "name=".toList.isPrefixOf part then
    (some (String.ofList (trimMatches (· == quote) (part.drop 5))), acc.2)
  else if "filename=".toList.isPrefixOf part then
    (acc.1, some (String.ofList (trimMatches (· == quote) (part.drop 9))))
  else acc

/-- The name and the file name. -/
def parseContentDisposition (value : String) : Option String × Option String :=
  (value.toList.splitOn ';').foldl addParameter (none, none)

def stripTrailingCrlf (body : List UInt8) : List UInt8 :=
  if crlf.isSuffixOf body then body.take (body.length - 2) else body

/-- One turn of the loop of `parse_multipart`. -/
def addPart (form : FormData) (part : List UInt8) : FormData :=
  if part = [] then form
  else
    match findDoubleCrlf part with
    | none => form
    | some sepPos =>
      let headers := parsePartHeaders unicode (part.take sepPos)
      let bodyBytes := part.drop (sepPos + 4)
      match headers.lookup "content-disposition" with
      | none => form
      | some disposition =>
        match parseContentDisposition disposition with
        | (none, _) => form
        | (some name, some filename) =>
          let contentType := (headers.lookup "content-type").getD "application/octet-stream"
          form.addFile name (.new name filename contentType (stripTrailingCrlf bodyBytes))
        | (some name, none) =>
          form.addField name (String.ofList (trimEndCrlf (fromUtf8Lossy bodyBytes).toList))

def parseMultipart (body : List UInt8) (boundary : String) : FormData :=
  (splitMultipart body (utf8 ("--" ++ boundary))).foldl (addPart unicode) .new

end

end Hypern.Http
