import Hypern.Http.MultipartRoundTrip
import Hypern.Lib.Slices

/-! `multipart.rs`, with every index it uses: the positions in the body, and `none` where a slice
or a subtraction would panic. -/

namespace Hypern.Http.Checked

open Lib

/-! ## The functions -/

/-- `windows(0)` panics. -/
def findBytes (haystack needle : List UInt8) : Option (Option Nat) :=
  if needle = [] then none else some (findList needle haystack)

/-- The position after `start` and a line break there. -/
def skipCrlf (body : List UInt8) (start : Nat) : Option Nat :=
  if start + 2 < body.length then do
    let line ← slice body start (start + 2)
    return if line = crlf then start + 2 else start
  else some start

/-- `body.len() > start && body[start..].starts_with(b"--")` -/
def isFinal (body : List UInt8) (start : Nat) : Option Bool :=
  if start < body.length then (sliceFrom body start).map dashes.isPrefixOf else some false

/-- One turn of the loop of `split_multipart`: the parts it adds, and where the next turn starts
unless this one breaks. -/
def turn (body boundary : List UInt8) (start : Nat) : Option (List (List UInt8) × Option Nat) := do
  let rest ← sliceFrom body start
  match ← findBytes rest boundary with
  | some stop =>
    let part ← slice body start (start + stop)
    let start := start + stop + boundary.length
    if ← isFinal body start then return ([part], none)
    else return ([part], some (← skipCrlf body start))
  | none =>
    if start < body.length then return ([← sliceFrom body start], none)
    else return ([], none)

/-- The loop of `split_multipart`, for a number of turns. -/
def splitLoop (body boundary : List UInt8) : Nat → Nat → Option (List (List UInt8))
  | 0, _ => none
  | turns + 1, start => do
    match ← turn body boundary start with
    | (parts, some next) => return parts ++ (← splitLoop body boundary turns next)
    | (parts, none) => return parts

def splitMultipart (turns : Nat) (body boundary : List UInt8) :
    Option (List (List UInt8)) := do
  match ← findBytes body boundary with
  | some pos => splitLoop body boundary turns (← skipCrlf body (pos + boundary.length))
  | none => splitLoop body boundary turns 0

/-- The loop of `find_double_crlf` from `i` on, for a number of turns. -/
def findDoubleCrlfFrom (data : List UInt8) : Nat → Nat → Option (Option Nat)
  | 0, _ => some none
  | turns + 1, i => do
    if (← slice data i (i + 4)) = crlf ++ crlf then return some i
    else findDoubleCrlfFrom data turns (i + 1)

def findDoubleCrlf (data : List UInt8) : Option (Option Nat) :=
  findDoubleCrlfFrom data (data.length - 3) 0

section

variable (unicode : String → String)

def addHeader (headers : Table String String) (line : List Char) :
    Option (Table String String) :=
  match findChar ':' line with
  | some colonPos => do
    let name ← textTo line colonPos
    let value ← textFrom line (colonPos + 1)
    return headers.insert (toLowercase unicode (String.ofList (trim name)))
      (String.ofList (trim value))
  | none => some headers

def parsePartHeaders (headerBytes : List UInt8) : Option (Table String String) :=
  (splitCrlf (fromUtf8Lossy headerBytes).toList).foldlM (addHeader unicode) ∅

def addParameter (acc : Option String × Option String) (part : List Char) :
    Option (Option String × Option String) :=
  let part := trim part
  if "name=".toList.isPrefixOf part then do
    let val ← textFrom part 5
    return (some (String.ofList (trimMatches (· == quote) val)), acc.2)
  else if "filename=".toList.isPrefixOf part then do
    let val ← textFrom part 9
    return (acc.1, some (String.ofList (trimMatches (· == quote) val)))
  else some acc

def parseContentDisposition (value : String) : Option (Option String × Option String) :=
  (value.toList.splitOn ';').foldlM addParameter (none, none)

def stripTrailingCrlf (body : List UInt8) : Option (List UInt8) :=
  if crlf.isSuffixOf body then do sliceTo body (← checkedSub body.length 2) else some body

def addPart (form : FormData) (part : List UInt8) : Option FormData :=
  if part = [] then some form
  else do
    match ← findDoubleCrlf part with
    | none => return form
    | some sepPos =>
      let headerBytes ← sliceTo part sepPos
      let bodyBytes ← sliceFrom part (sepPos + 4)
      let headers ← parsePartHeaders unicode headerBytes
      match headers.lookup "content-disposition" with
      | none => return form
      | some disposition =>
        match ← parseContentDisposition disposition with
        | (none, _) => return form
        | (some name, some filename) =>
          let contentType := (headers.lookup "content-type").getD "application/octet-stream"
          let content ← stripTrailingCrlf bodyBytes
          return form.addFile name (.new name filename contentType content)
        | (some name, none) =>
          return form.addField name
            (String.ofList (trimEndCrlf (fromUtf8Lossy bodyBytes).toList))

def parseMultipart (turns : Nat) (body : List UInt8) (boundary : String) : Option FormData := do
  let parts ← splitMultipart turns body (utf8 ("--" ++ boundary))
  parts.foldlM (addPart unicode) .new

end

/-! ## Splitting -/

variable {body boundary : List UInt8} {start stop : Nat}

theorem findBytes_eq (hne : boundary ≠ []) (haystack : List UInt8) :
    findBytes haystack boundary = some (Http.findBytes haystack boundary) := by
  rw [findBytes, if_neg hne, findBytes_of_ne_nil hne]

/-- The position after a line break stays in the body. -/
theorem exists_skipCrlf (h : start ≤ body.length) : ∃ next, skipCrlf body start = some next ∧
    start ≤ next ∧ next ≤ body.length ∧ body.drop next = Http.skipCrlf (body.drop start) := by
  unfold skipCrlf Http.skipCrlf
  rw [List.length_drop]
  by_cases hroom : start + 2 < body.length
  · have hrest : 2 < body.length - start := by omega
    have hslice := slice_of_le (Nat.le_add_right start 2) (Nat.le_of_lt hroom)
    rw [if_pos hroom, hslice, between_add]
    by_cases hline : (body.drop start).take 2 = crlf
    · refine ⟨start + 2, ?_, Nat.le_add_right start 2, Nat.le_of_lt hroom, ?_⟩
      · simp [hline]
      · rw [if_pos ⟨hrest, hline⟩, List.drop_drop]
    · refine ⟨start, ?_, Nat.le_refl start, h, ?_⟩
      · simp [hline]
      · rw [if_neg fun hboth => hline hboth.2]
  · have hrest : ¬ 2 < body.length - start := by omega
    refine ⟨start, ?_, Nat.le_refl start, h, ?_⟩
    · rw [if_neg hroom]
    · rw [if_neg fun hboth => hrest hboth.1]

theorem isFinal_eq (body : List UInt8) (start : Nat) :
    isFinal body start = some (dashes.isPrefixOf (body.drop start)) := by
  unfold isFinal
  split_ifs with h
  · rw [sliceFrom_of_le (Nat.le_of_lt h)]
    rfl
  · rw [List.drop_eq_nil_of_le (Nat.not_lt.mp h)]
    rfl

section Turn

variable (hne : boundary ≠ []) (hstart : start ≤ body.length)
include hne hstart

theorem stop_le (h : Http.findBytes (body.drop start) boundary = some stop) :
    start + stop + boundary.length ≤ body.length := by
  rw [findBytes_of_ne_nil hne] at h
  have hlength := add_length_le_of_findList hne h
  rw [List.length_drop] at hlength
  omega

theorem turn_of_final (h : Http.findBytes (body.drop start) boundary = some stop)
    (hfinal : dashes.isPrefixOf (body.drop (start + stop + boundary.length))) :
    turn body boundary start = some ([between body (start, start + stop)], none) := by
  have hroom := stop_le hne hstart h
  have hslice := slice_of_le (Nat.le_add_right start stop) ((Nat.le_add_right _ _).trans hroom)
  have hlast : isFinal body (start + stop + boundary.length) = some true := by
    rw [isFinal_eq, hfinal]
  unfold turn
  simp [sliceFrom_of_le hstart, findBytes_eq hne, h, hslice, hlast]

theorem turn_of_some (h : Http.findBytes (body.drop start) boundary = some stop)
    (hfinal : ¬ dashes.isPrefixOf (body.drop (start + stop + boundary.length))) :
    ∃ next, turn body boundary start = some ([between body (start, start + stop)], some next) ∧
      start + stop + boundary.length ≤ next ∧ next ≤ body.length ∧
      body.drop next = Http.skipCrlf (body.drop (start + stop + boundary.length)) := by
  have hroom := stop_le hne hstart h
  have hslice := slice_of_le (Nat.le_add_right start stop) ((Nat.le_add_right _ _).trans hroom)
  have hmore : isFinal body (start + stop + boundary.length) = some false := by
    rw [isFinal_eq, eq_false_of_ne_true hfinal]
  obtain ⟨next, hnext, hle, hend, hdrop⟩ := exists_skipCrlf hroom
  refine ⟨next, ?_, hle, hend, hdrop⟩
  unfold turn
  simp [sliceFrom_of_le hstart, findBytes_eq hne, h, hslice, hmore, hnext]

theorem turn_of_none (h : Http.findBytes (body.drop start) boundary = none) :
    turn body boundary start =
      some (if body.drop start = [] then [] else [body.drop start], none) := by
  have hrest : body.drop start = [] ↔ ¬ start < body.length := by
    rw [List.drop_eq_nil_iff, Nat.not_lt]
  unfold turn
  by_cases hmore : start < body.length
  · simp [sliceFrom_of_le hstart, findBytes_eq hne, h, hmore, hrest]
  · simp [sliceFrom_of_le hstart, findBytes_eq hne, h, hmore, hrest]

end Turn

/-- In the position `start` the loop does what it does with the bytes that follow. -/
theorem exists_splitLoop (hne : boundary ≠ []) {turns start : Nat} (hstart : start ≤ body.length)
    (hturns : body.length < turns + start) :
    ∃ cuts, splitLoop body boundary turns start = some (cuts.map (between body)) ∧
      cuts.map (between body) = splitFrom boundary (body.drop start) ∧
      Cuts body boundary.length start cuts := by
  induction turns generalizing start with
  | zero => omega
  | succ turns ih =>
    rw [splitLoop]
    cases hfind : Http.findBytes (body.drop start) boundary with
    | none =>
      rw [turn_of_none hne hstart hfind, splitFrom_of_none hfind]
      split_ifs with hrest
      · exact ⟨[], rfl, rfl, Cuts.nil body boundary.length start⟩
      · have hlast := between_length body start
        refine ⟨[(start, body.length)], ?_, ?_, ?_⟩
        · rw [List.map_singleton, hlast]
          rfl
        · rw [List.map_singleton, hlast]
        · exact Cuts.singleton (Nat.le_refl start) hstart (Nat.le_refl _)
    | some stop =>
      have hroom := stop_le hne hstart hfind
      have hle := Nat.le_add_right start stop
      have hend := (Nat.le_add_right _ _).trans hroom
      have hpart := between_add body start stop
      by_cases hfinal : dashes.isPrefixOf (body.drop (start + stop + boundary.length))
      · refine ⟨[(start, start + stop)], ?_, ?_, ?_⟩
        · rw [turn_of_final hne hstart hfind hfinal]
          rfl
        · rw [splitFrom_of_some hfind, List.drop_drop, ← Nat.add_assoc, if_pos hfinal,
            List.map_singleton, hpart]
        · exact Cuts.singleton (Nat.le_refl start) hle hend
      · obtain ⟨next, hturn, hnext, hinside, hdrop⟩ := turn_of_some hne hstart hfind hfinal
        have hpos := List.length_pos_iff.mpr hne
        have hfewer : body.length < turns + next := by omega
        obtain ⟨cuts, hloop, hsplit, hcuts⟩ := ih hinside hfewer
        refine ⟨(start, start + stop) :: cuts, ?_, ?_, ?_⟩
        · rw [hturn]
          simp [hloop]
        · rw [splitFrom_of_some hfind, List.drop_drop, ← Nat.add_assoc, if_neg hfinal,
            List.map_cons, hpart, hsplit, hdrop]
        · exact Cuts.cons (Nat.le_refl start) hle hend hnext hcuts

theorem exists_splitMultipart (hne : boundary ≠ []) {turns : Nat} (hturns : body.length < turns) :
    ∃ cuts, splitMultipart turns body boundary = some (cuts.map (between body)) ∧
      cuts.map (between body) = Http.splitMultipart body boundary ∧
      Cuts body boundary.length 0 cuts := by
  unfold splitMultipart Http.splitMultipart
  rw [findBytes_eq hne]
  cases hfind : Http.findBytes body boundary with
  | none => exact exists_splitLoop hne (Nat.zero_le _) hturns
  | some pos =>
    have hroom := stop_le hne (Nat.zero_le _) hfind
    rw [Nat.zero_add] at hroom
    obtain ⟨start, hskip, -, hstart, hdrop⟩ := exists_skipCrlf hroom
    obtain ⟨cuts, hloop, hsplit, hcuts⟩ :=
      exists_splitLoop hne hstart (Nat.lt_add_right start hturns)
    refine ⟨cuts, ?_, ?_, hcuts.mono (Nat.zero_le start)⟩
    · simp [hskip, hloop]
    · rw [hsplit, hdrop]

theorem notInfix_of_mem_splitFrom (hne : boundary ≠ []) (rest : List UInt8) :
    ∀ part ∈ splitFrom boundary rest, ¬ boundary <:+: part := by
  fun_induction splitFrom boundary rest with
  | case1 rest stop hfind after hfinal =>
    rw [findBytes_of_ne_nil hne] at hfind
    exact List.forall_mem_singleton.mpr (notInfix_take_of_findList hne hfind)
  | case2 rest stop hfind after hfinal ih =>
    rw [findBytes_of_ne_nil hne] at hfind
    exact List.forall_mem_cons.mpr ⟨notInfix_take_of_findList hne hfind, ih⟩
  | case3 => simp
  | case4 rest hfind =>
    rw [findBytes_of_ne_nil hne] at hfind
    exact List.forall_mem_singleton.mpr (notInfix_of_findList hne hfind)

theorem notInfix_of_mem_splitMultipart (hne : boundary ≠ []) (body : List UInt8) :
    ∀ part ∈ Http.splitMultipart body boundary, ¬ boundary <:+: part := by
  unfold Http.splitMultipart
  split
  · exact notInfix_of_mem_splitFrom hne _
  · exact notInfix_of_mem_splitFrom hne body

/-! ## Parsing -/

theorem findDoubleCrlfFrom_eq (data : List UInt8) {turns i : Nat} (h : turns = data.length - 3 - i) :
    findDoubleCrlfFrom data turns i =
      some ((findList (crlf ++ crlf) (data.drop i)).map (i + ·)) := by
  induction turns generalizing i with
  | zero =>
    have hshort : (data.drop i).length < (crlf ++ crlf).length := by
      rw [List.length_drop]
      change data.length - i < 4
      omega
    rw [findDoubleCrlfFrom, findList_of_length_lt hshort]
    rfl
  | succ turns ih =>
    have hroom : i + 4 ≤ data.length := by omega
    have hslice := slice_of_le (Nat.le_add_right i 4) hroom
    have hcons : data.drop i = data[i] :: data.drop (i + 1) := List.drop_eq_getElem_cons (by omega)
    have hwindow : (data.drop i).take 4 = crlf ++ crlf ↔ crlf ++ crlf <+: data.drop i :=
      eq_comm.trans List.prefix_iff_eq_take.symm
    have hnext := ih (i := i + 1) (by omega)
    rw [findDoubleCrlfFrom, hslice, between_add]
    by_cases hfound : crlf ++ crlf <+: data.drop i
    · rw [findList_at_start (by decide) hfound]
      simp [hwindow.mpr hfound]
    · have hno := fun hline => hfound (hwindow.mp hline)
      have hskip : findList (crlf ++ crlf) (data.drop i) =
          (findList (crlf ++ crlf) (data.drop (i + 1))).map (· + 1) := by
        rw [hcons] at hfound ⊢
        exact findList_cons_of_not hfound
      rw [hskip, Option.map_map]
      simp only [Option.bind_eq_bind, Option.bind_some, if_neg hno, hnext, Option.some.injEq]
      exact Option.map_congr fun n _ => by simp only [Function.comp]; omega

theorem findDoubleCrlf_eq (data : List UInt8) :
    findDoubleCrlf data = some (Http.findDoubleCrlf data) := by
  have hloop := @findDoubleCrlfFrom_eq data (data.length - 3) 0 rfl
  rw [findDoubleCrlf, hloop, findDoubleCrlf_eq_findList, List.drop_zero]
  simp

/-- The line is cut around its colon, which takes one byte. -/
theorem addHeader_eq (unicode : String → String) (headers : Table String String)
    (line : List Char) :
    addHeader unicode headers line = some (Http.addHeader unicode headers line) := by
  unfold addHeader Http.addHeader
  rw [findChar_eq]
  cases hfind : findList [':'] line with
  | none => rfl
  | some colonPos =>
    obtain ⟨rest, hrest⟩ := prefix_of_findList hfind
    have hafter : line.drop (colonPos + 1) = rest := by
      rw [← List.drop_drop, ← hrest]
      rfl
    have hline : line.take colonPos ++ ([':'] ++ rest) = line := by
      rw [hrest, List.take_append_drop]
    have hbytes := byteLength_concat (line.take colonPos) ':'
    have hcolon : (':').utf8Size = 1 := rfl
    have hname := textTo_append (line.take colonPos) ([':'] ++ rest)
    have hvalue := textFrom_append (line.take colonPos ++ [':']) rest
    rw [hline] at hname
    rw [List.append_assoc, hline, hbytes, hcolon] at hvalue
    simp [hname, hvalue, hafter]

theorem parsePartHeaders_eq (unicode : String → String) (headerBytes : List UInt8) :
    parsePartHeaders unicode headerBytes = some (Http.parsePartHeaders unicode headerBytes) := by
  have hturn : addHeader unicode = fun headers line =>
      pure (Http.addHeader unicode headers line) := by
    funext headers line
    exact addHeader_eq unicode headers line
  rw [parsePartHeaders, hturn, List.foldlM_pure]
  rfl

/-- What stands after a key of ASCII characters. -/
theorem textFrom_of_isPrefixOf {key : String} {part : List Char} {n : Nat}
    (hkey : byteLength key.toList = n) (hlength : key.toList.length = n)
    (h : key.toList.isPrefixOf part) : textFrom part n = some (part.drop n) := by
  obtain ⟨rest, rfl⟩ := List.isPrefixOf_iff_prefix.mp h
  have hdrop : (key.toList ++ rest).drop n = rest := by
    rw [← hlength, List.drop_left]
  rw [hdrop, ← hkey]
  exact textFrom_append key.toList rest

theorem addParameter_eq (acc : Option String × Option String) (part : List Char) :
    addParameter acc part = some (Http.addParameter acc part) := by
  unfold addParameter Http.addParameter
  dsimp only
  split_ifs with hname hfilename
  · rw [textFrom_of_isPrefixOf (by decide) (by decide) hname]
    rfl
  · rw [textFrom_of_isPrefixOf (by decide) (by decide) hfilename]
    rfl
  · rfl

theorem parseContentDisposition_eq (value : String) :
    parseContentDisposition value = some (Http.parseContentDisposition value) := by
  have hturn : addParameter = fun acc part => pure (Http.addParameter acc part) := by
    funext acc part
    exact addParameter_eq acc part
  rw [parseContentDisposition, hturn, List.foldlM_pure]
  rfl

theorem stripTrailingCrlf_eq (body : List UInt8) :
    stripTrailingCrlf body = some (Http.stripTrailingCrlf body) := by
  unfold stripTrailingCrlf Http.stripTrailingCrlf
  split_ifs with h
  · have hlength : 2 ≤ body.length := (List.isSuffixOf_iff_suffix.mp h).length_le
    have hslice := sliceTo_of_le (Nat.sub_le body.length 2)
    simp [checkedSub_of_le hlength, hslice]
  · rfl

theorem addPart_eq (unicode : String → String) (form : FormData) (part : List UInt8) :
    addPart unicode form part = some (Http.addPart unicode form part) := by
  unfold addPart Http.addPart
  split_ifs with hempty
  · rfl
  · rw [findDoubleCrlf_eq]
    cases hfind : Http.findDoubleCrlf part with
    | none => rfl
    | some sepPos =>
      have hroom : sepPos + 4 ≤ part.length := by
        rw [findDoubleCrlf_eq_findList] at hfind
        exact add_length_le_of_findList (by decide) hfind
      have hheader := sliceTo_of_le ((Nat.le_add_right sepPos 4).trans hroom)
      have hbody := sliceFrom_of_le hroom
      simp only [Option.bind_eq_bind, Option.bind_some, hheader, hbody, parsePartHeaders_eq]
      cases (Http.parsePartHeaders unicode (part.take sepPos)).lookup "content-disposition" with
      | none => rfl
      | some disposition =>
        dsimp only
        rw [parseContentDisposition_eq]
        rcases Http.parseContentDisposition disposition with ⟨_ | name, _ | filename⟩
        · rfl
        · rfl
        · rfl
        · simp [stripTrailingCrlf_eq]

theorem splitMultipart_eq (hne : boundary ≠ []) {turns : Nat} (hturns : body.length < turns) :
    splitMultipart turns body boundary = some (Http.splitMultipart body boundary) := by
  obtain ⟨cuts, hparts, hsplit, -⟩ := exists_splitMultipart hne hturns
  rw [hparts, hsplit]

theorem parseMultipart_eq (unicode : String → String) {turns : Nat} {body : List UInt8}
    (hturns : body.length < turns) (boundary : String) :
    parseMultipart unicode turns body boundary =
      some (Http.parseMultipart unicode body boundary) := by
  have hne : utf8 ("--" ++ boundary) ≠ [] := by
    rw [utf8_append]
    exact List.append_ne_nil_of_left_ne_nil (by decide) _
  have hturn : addPart unicode = fun form part => pure (Http.addPart unicode form part) := by
    funext form part
    exact addPart_eq unicode form part
  unfold parseMultipart
  rw [splitMultipart_eq hne hturns, hturn]
  simp only [Option.bind_eq_bind, Option.bind_some, List.foldlM_pure]
  rfl

/-- The parts lie in the body one after the other, with a delimiter between two and none in them,
and no index is out of range. -/
theorem multipart_in_range (unicode : String → String) (body : List UInt8) :
    (∀ boundary : List UInt8, ∃ cuts : List (Nat × Nat),
      (∀ turns, body.length < turns →
        splitMultipart turns body (dashes ++ boundary) = some (cuts.map (between body))) ∧
      Cuts body (dashes ++ boundary).length 0 cuts ∧
      ∀ cut ∈ cuts, ¬ dashes ++ boundary <:+: between body cut) ∧
    ∀ (boundary : String) (turns : Nat), body.length < turns →
      parseMultipart unicode turns body boundary =
        some (Http.parseMultipart unicode body boundary) := by
  constructor
  · intro boundary
    have hne : dashes ++ boundary ≠ [] := List.append_ne_nil_of_left_ne_nil (by decide) _
    obtain ⟨cuts, -, hsplit, hcuts⟩ := exists_splitMultipart hne (Nat.lt_succ_self body.length)
    refine ⟨cuts, fun turns hturns => ?_, hcuts, fun cut hcut => ?_⟩
    · rw [hsplit]
      exact splitMultipart_eq hne hturns
    · have hpart := List.mem_map_of_mem (f := between body) hcut
      rw [hsplit] at hpart
      exact notInfix_of_mem_splitMultipart hne body _ hpart
  · intro boundary turns hturns
    exact parseMultipart_eq unicode hturns boundary

example : splitMultipart 9 [45, 45, 97, 13, 10, 120, 45, 45, 97, 45, 45, 97] (utf8 "--a") =
    some [[120]] := by decide

end Hypern.Http.Checked
