import Hypern.Http.Request

/-! Looking up a route. A tree of the `matchit` crate is what it answers for a path. -/

namespace Hypern.Routing

open Http

structure Route (F : Type) where
  path : String
  function : F
  method : String

namespace Route

def handlerHash {F : Type} (xxh3_64 : List UInt8 → UInt64) (r : Route F) : UInt64 :=
  xxh3_64 (Lib.utf8 r.path) ^^^ xxh3_64 (Lib.utf8 r.method)

end Route

/-- `matchit::Router::at` on one of the trees, with the parameters it binds. -/
abbrev MatchitRouter (F : Type) := String → Option (Route F × StrMap)

structure Router (F : Type) where
  getRouter : MatchitRouter F
  postRouter : MatchitRouter F
  putRouter : MatchitRouter F
  deleteRouter : MatchitRouter F
  patchRouter : MatchitRouter F
  headRouter : MatchitRouter F
  optionsRouter : MatchitRouter F

namespace Router

variable {F : Type} (router : Router F)

def tree (method : String) : Option (MatchitRouter F) :=
  match method with
  | "GET" => some router.getRouter
  | "POST" => some router.postRouter
  | "PUT" => some router.putRouter
  | "DELETE" => some router.deleteRouter
  | "PATCH" => some router.patchRouter
  | "HEAD" => some router.headRouter
  | "OPTIONS" => some router.optionsRouter
  | _ => none

def findMatchingRoute (c : Crates) (path method : String) : Option (Route F × StrMap) :=
  match router.tree method with
  | some tree => tree path
  | none => (router.tree (c.toUppercase method)).bind (· path)

end Router

end Hypern.Routing
