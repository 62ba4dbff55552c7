import Mathlib.Data.List.Basic

/-! `convert_to_matchit_path`: the route syntax of the framework in that of `matchit`. -/

namespace Hypern.Routing

inductive PathMode
  | literal | param | wildcard
  deriving DecidableEq

def convertFrom : List Char → PathMode → List Char
  | [], .literal => []
  | [], _ => ['\x7d']
  | c :: cs, .literal =>
    if c = ':' then '\x7b' :: convertFrom cs .param
    else if c = '*' then '\x7b' :: '*' :: convertFrom cs .wildcard
    else c :: convertFrom cs .literal
  | c :: cs, .param =>
    if c = '/' ∨ c = '-' ∨ c = '.' then '\x7d' :: c :: convertFrom cs .literal
    else c :: convertFrom cs .param
  | c :: cs, .wildcard =>
    if c = '/' then '\x7d' :: c :: convertFrom cs .literal else c :: convertFrom cs .wildcard

def convertToMatchitPath (path : String) : String := String.ofList (convertFrom path.toList .literal)

example : convertToMatchitPath "/users/:id.json/*rest" = "/users/\x7bid\x7d.json/\x7b*rest\x7d" := by
  decide

end Hypern.Routing
