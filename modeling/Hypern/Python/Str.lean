import Hypern.Lib.Fallible
import Hypern.Lib.Hex
import Hypern.Python.Object

/-! Python strings with lone surrogates, which have no UTF-8 encoding. -/

namespace Hypern.Python

open Lib

/-- A code point: a character, or the surrogate this far above `D800`. -/
inductive PyChar
  | char (c : Char)
  | surrogate (n : Fin 2048)
  deriving DecidableEq

abbrev PyStr := List PyChar

def PyChar.char? : PyChar → Option Char
  | .char c => some c
  | .surrogate _ => none

/-- The text, if there is no surrogate in it. -/
def PyStr.plain? (s : PyStr) : Option String := (s.mapM PyChar.char?).map String.ofList

def PyStr.ofString (s : String) : PyStr := s.toList.map .char

theorem PyStr.plain?_ofString (s : String) : (PyStr.ofString s).plain? = some s := by
  have hchars : ∀ cs : List Char, (cs.map PyChar.char).mapM PyChar.char? = some cs := by
    intro cs
    induction cs with
    | nil => rfl
    | cons c cs ih =>
      rw [List.map_cons, List.mapM_cons, ih]
      rfl
  unfold PyStr.plain? PyStr.ofString
  rw [hchars, Option.map_some, String.ofList_toList]

theorem PyStr.plain?_eq_some {s : PyStr} {t : String} (h : s.plain? = some t) : s = .ofString t := by
  obtain ⟨cs, hcs, rfl⟩ := Option.map_eq_some_iff.mp h
  unfold PyStr.ofString
  rw [String.toList_ofList]
  have hall := forall₂_of_mapM_some hcs
  clear h hcs
  induction hall with
  | nil => rfl
  | @cons c _ _ _ hc _ ih =>
    cases c with
    | char c =>
      cases hc
      rw [List.map_cons, ← ih]
    | surrogate n => cases hc

/-- What `s.encode()` raises, about the first run of surrogates. -/
def unicodeEncodeError (s : PyStr) : PyExc :=
  let start := (s.takeWhile (·.char?.isSome)).length
  let place := match (s.drop start).takeWhile (·.char?.isNone) with
    | [.surrogate n] =>
      "character '\\u" ++ String.ofList (hex 4 (0xD800 + n.val)) ++ "' in position " ++ toString start
    | run => "characters in position " ++ toString start ++ "-" ++ toString (start + run.length - 1)
  ⟨["UnicodeEncodeError", "UnicodeError", "ValueError", "Exception", "BaseException", "object"],
    "'utf-8' codec can't encode " ++ place ++ ": surrogates not allowed"⟩

def asciiOnlyError : PyExc :=
  builtinError "ValueError" "string argument should contain only ASCII characters"

end Hypern.Python
