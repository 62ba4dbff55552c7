import Hypern.Lib.Utf8

/-! `SSEEvent` of `streaming.rs`: one server-sent event and its text on the wire. -/

namespace Hypern.Http

open Lib

/-- `str::split_inclusive('\n')`. -/
def splitLines : List Char → List (List Char)
  | [] => []
  | c :: cs =>
    if c = '\n' then [c] :: splitLines cs
    else
      match splitLines cs with
      | [] => [[c]]
      | line :: rest => (c :: line) :: rest

/-- The line without its end, which is a line feed that may follow a carriage return. -/
def stripLineEnd (line : List Char) : List Char :=
  if line.getLast? = some '\n' then
    let line := line.dropLast
    if line.getLast? = some '\r' then line.dropLast else line
  else line

/-- `str::lines`. -/
def lines (text : List Char) : List (List Char) := (splitLines text).map stripLineEnd

structure SSEEvent where
  id : Option String
  event : Option String
  data : String
  retry : Option Nat

namespace SSEEvent

def fieldLine (name : String) (value : List Char) : List Char :=
  name.toList ++ ':' :: ' ' :: value ++ ['\n']

def optionalLine (name : String) : Option String → List Char
  | some value => fieldLine name value.toList
  | none => []

def format (e : SSEEvent) : String :=
  String.ofList (optionalLine "id" e.id ++ optionalLine "event" e.event ++
    optionalLine "retry" (e.retry.map Nat.repr) ++
    (lines e.data.toList).flatMap (fieldLine "data") ++ ['\n'])

def toBytes (e : SSEEvent) : List UInt8 := utf8 e.format

def comment (text : String) : String := ": " ++ text ++ "\n\n"

def ofData (data : String) : SSEEvent := ⟨none, none, data, none⟩

def named (event data : String) : SSEEvent := ⟨none, some event, data, none⟩

example : format ⟨some "7", none, "a\r\nb\n", some 3000⟩ =
    "id: 7\nretry: 3000\ndata: a\ndata: b\n\n" := by
  decide +kernel

end SSEEvent

end Hypern.Http
