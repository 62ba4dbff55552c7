import Hypern.Http.Uri
import Hypern.Lib.PosixPath
import Hypern.Routing.MatchitPath
import Mathlib.Data.List.DropRight

/-! `Hypern.static`: which file the handler `serve_static` opens for a request path. -/

namespace Hypern.Application

open Lib.PosixPath Http Routing

/-- The arguments of `app.static`; the index is a relative path without `..`. -/
structure Static where
  urlPath : String
  directory : String
  index : String := "index.html"
  directory_absolute : isAbsolute directory.toList = true
  index_relative : isAbsolute index.toList = false
  index_plain : hasDotDot index.toList = false

/-- No path with a null character names a file. -/
structure FileSystem where
  isdir : List Char → Bool
  isfile : List Char → Bool
  isfile_null {path : List Char} (h : Char.ofNat 0 ∈ path) : isfile path = false

inductive Served
  | forbidden
  | notFound
  | opened (path : List Char)
  deriving DecidableEq

namespace Static

variable (s : Static)

/-- `os.path.abspath(directory)` -/
def root : List Char := normpath s.directory.toList

def pattern : String :=
  convertToMatchitPath (String.ofList (s.urlPath.toList.rdropWhile (· == '/')) ++ "/*filepath")

def serveStatic (fs : FileSystem) (filepath : List Char) : Served :=
  if hasDotDot filepath then .forbidden
  else
    let fullPath := join s.root filepath
    let fullPath := if fs.isdir fullPath then join fullPath s.index.toList else fullPath
    if fs.isfile fullPath then .opened fullPath else .notFound

/-- `req.param("filepath") or ""` -/
def filepath (params : List (String × String)) : List Char :=
  ((params.lookup "filepath").getD "").toList

/-- The crates behind the handler: what the tree of the router answers for a pattern and a path, and
the decoding of percent signs. -/
structure Crates where
  matchAt : String → String → Option (List (String × String))
  percentDecodeStr : List UInt8 → List UInt8

variable (c : Crates)

/-- A request whose raw path is `raw`. -/
def handle (fs : FileSystem) (raw : Option String) : Option Served :=
  (c.matchAt s.pattern (decodePath c.percentDecodeStr raw)).map fun params =>
    s.serveStatic fs (filepath params)

/-- Whatever the file system looks like, only files inside the directory are opened. -/
def Confined (raw : Option String) : Prop :=
  ∀ fs path, s.handle c fs raw = some (.opened path) → Inside s.root path

/-- The captured path has two dots in a row, or it is relative, or it names something inside
the directory, or no file at all. -/
def Harmless (raw : Option String) : Prop :=
  ∀ params, c.matchAt s.pattern (decodePath c.percentDecodeStr raw) = some params →
    hasDotDot (filepath params) = true ∨ isAbsolute (filepath params) = false ∨
      Inside s.root (filepath params) ∨ Char.ofNat 0 ∈ filepath params

variable {s c}

theorem inside_join_root {f : List Char} (hdots : hasDotDot f = false)
    (h : isAbsolute f = false ∨ Inside s.root f) : Inside s.root (join s.root f) := by
  obtain hrel | hin := h
  · have hroot : Inside s.root s.root := Inside.refl (isAbsolute_normpath _)
    exact hroot.join hrel hdots
  · have habs : join s.root f = f := by
      rw [join, if_pos hin.1]
    rw [habs]
    exact hin

theorem serveStatic_inside {fs : FileSystem} {f path : List Char}
    (h : isAbsolute f = false ∨ Inside s.root f) (hopen : s.serveStatic fs f = .opened path) :
    Inside s.root path := by
  unfold serveStatic at hopen
  cases hdots : hasDotDot f with
  | true =>
    rw [hdots] at hopen
    cases hopen
  | false =>
    have hfile := inside_join_root hdots h
    have hindex := hfile.join s.index_relative s.index_plain
    simp only [hdots, Bool.false_eq_true, if_false] at hopen
    split_ifs at hopen
    · rwa [← Served.opened.inj hopen]
    · rwa [← Served.opened.inj hopen]

theorem mem_join_left {c : Char} {a b : List Char} (hb : isAbsolute b = false) (h : c ∈ a) :
    c ∈ join a b := by
  unfold join
  rw [if_neg (by simp [hb])]
  split_ifs <;> simp [h]

/-- No file has a null character in its path. -/
theorem serveStatic_null {fs : FileSystem} {f path : List Char} (habs : isAbsolute f = true)
    (hnull : Char.ofNat 0 ∈ f) : s.serveStatic fs f ≠ .opened path := by
  have hjoin : join s.root f = f := by
    rw [join, if_pos habs]
  have hindex := fs.isfile_null (mem_join_left s.index_relative hnull)
  unfold serveStatic
  rw [hjoin]
  dsimp only
  split_ifs with hdots hdir hfile hfile
  · exact nofun
  · exact absurd (hindex.symm.trans hfile) Bool.false_ne_true
  · exact nofun
  · exact absurd ((fs.isfile_null hnull).symm.trans hfile) Bool.false_ne_true
  · exact nofun

theorem confined_iff_harmless (s : Static) (c : Crates) (raw : Option String) :
    s.Confined c raw ↔ s.Harmless c raw := by
  constructor
  · intro h params hmatch
    cases hdots : hasDotDot (filepath params) with
    | true => exact .inl rfl
    | false =>
      refine .inr ?_
      cases habs : isAbsolute (filepath params) with
      | false => exact .inl rfl
      | true =>
        refine .inr ?_
        by_cases hnull : Char.ofNat 0 ∈ filepath params
        · exact .inr hnull
        · -- a file system in which the captured path is a plain file
          let fs : FileSystem :=
            ⟨fun _ => false, fun p => !p.contains (Char.ofNat 0), by simp⟩
          have hjoin : join s.root (filepath params) = filepath params := by
            rw [join, if_pos habs]
          have hopen : s.handle c fs raw = some (.opened (filepath params)) := by
            simp [handle, hmatch, serveStatic, hdots, hjoin, fs, hnull]
          exact .inl (h fs _ hopen)
  · intro h fs path hopen
    obtain ⟨params, hmatch, hserved⟩ := Option.map_eq_some_iff.mp hopen
    obtain hdots | hrel | hin | hnull := h params hmatch
    · rw [serveStatic, if_pos hdots] at hserved
      cases hserved
    · exact serveStatic_inside (.inl hrel) hserved
    · exact serveStatic_inside (.inr hin) hserved
    · cases habs : isAbsolute (filepath params) with
      | false => exact serveStatic_inside (.inl habs) hserved
      | true => exact absurd hserved (serveStatic_null habs hnull)

def catchAll (pattern path : String) : Option (List (String × String)) :=
  let literal := pattern.toList.takeWhile (· ≠ '\x7b')
  let rest := path.toList.drop literal.length
  if literal.isPrefixOf path.toList && !rest.isEmpty then some [("filepath", String.ofList rest)]
  else none

def publicFiles : Static where
  urlPath := "/static"
  directory := "/srv/public"
  directory_absolute := by decide
  index_relative := by decide
  index_plain := by decide

def plainCrates : Crates := ⟨catchAll, percentDecode⟩

theorem opens_outside_directory :
    ¬ ∀ (s : Static) (c : Crates) (raw : Option String), s.Confined c raw := by
  intro h
  let fs : FileSystem := ⟨fun _ => false, fun p => p = "/etc/passwd".toList, by
    intro path hnull
    refine decide_eq_false fun heq => ?_
    rw [heq] at hnull
    exact absurd hnull (by decide)⟩
  have hopen : publicFiles.handle plainCrates fs (some "/static/%2Fetc/passwd") =
      some (.opened "/etc/passwd".toList) := by decide +kernel
  have hinside := h publicFiles plainCrates (some "/static/%2Fetc/passwd") fs _ hopen
  exact absurd hinside (by decide +kernel)

end Static

end Hypern.Application
