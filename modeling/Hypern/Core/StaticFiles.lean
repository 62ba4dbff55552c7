import Hypern.Lib.Interleave
import Hypern.Lib.LexicalPath
import Hypern.Lib.Table
import Hypern.Lib.Text
import Mathlib.Data.List.DropRight
import Mathlib.Data.Set.Basic
import Mathlib.Data.Set.BooleanAlgebra
import Mathlib.Order.CompletePartialOrder

/-! `StaticFileHandler` of `static_files.rs`: which files it opens and what its cache holds, with
requests served by threads at once. -/

namespace Hypern.Core

open Lib Lib.PosixPath

inductive StaticFileError
  | notFound | invalidPath | ioError | tooLarge

def StaticFileError.toString : StaticFileError → String
  | .notFound => "File not found"
  | .invalidPath => "Invalid path"
  | .ioError => "I/O error"
  | .tooLarge => "File too large"

structure CachedFile where
  data : List UInt8
  contentType : String
  size : Nat
  etag : String

/-- What the disk has at a path. -/
inductive DiskEntry
  /-- Nothing, or no file. -/
  | absent
  /-- It cannot be opened or mapped, or its metadata cannot be read. -/
  | unreadable
  /-- The time is in seconds, where the file system keeps one. -/
  | file (data : List UInt8) (modified : Option Nat)

abbrev Disk := List Char → DiskEntry

structure StaticFileHandler where
  rootPath : List Char
  maxCacheSize : Nat := 1000
  maxFileSize : Nat := 50 * 1024 * 1024
  urlPrefix : List Char := "/static".toList
  indexFile : List Char := "index.html".toList
  spaMode : Bool := false
  /-- `str::to_lowercase` -/
  toLowercase : String → String

structure FileResponse where
  body : List UInt8
  contentType : String
  etag : String
  status : Nat

/-! ## Loading a file -/

/-- `Path::file_name` -/
def fileName (p : List Char) : Option (List Char) :=
  match ((components p).filter fun c => c ≠ [] ∧ c ≠ ['.']).getLast? with
  | some name => if name = ['.', '.'] then none else some name
  | none => none

/-- `Path::extension`; a name that only begins with a dot has none. -/
def extension (p : List Char) : Option (List Char) := do
  let name ← fileName p
  let stem := (name.rdropWhile (· ≠ '.')).dropLast
  if stem = [] then none else some (name.rtakeWhile (· ≠ '.'))

def contentTypes : List (List String × String) :=
  [(["html", "htm"], "text/html; charset=utf-8"), (["css"], "text/css; charset=utf-8"),
    (["js", "mjs"], "application/javascript; charset=utf-8"),
    (["json"], "application/json; charset=utf-8"), (["png"], "image/png"),
    (["jpg", "jpeg"], "image/jpeg"), (["gif"], "image/gif"), (["svg"], "image/svg+xml"),
    (["ico"], "image/x-icon"), (["woff"], "font/woff"), (["woff2"], "font/woff2"),
    (["ttf"], "font/ttf"), (["eot"], "application/vnd.ms-fontobject"),
    (["pdf"], "application/pdf"), (["txt"], "text/plain; charset=utf-8"),
    (["xml"], "application/xml; charset=utf-8"), (["mp4"], "video/mp4"),
    (["webm"], "video/webm"), (["mp3"], "audio/mpeg"), (["wav"], "audio/wav"),
    (["zip"], "application/zip")]

namespace StaticFileHandler

variable (h : StaticFileHandler)

def guessContentType (path : List Char) : String :=
  let ext := h.toLowercase (String.ofList ((extension path).getD []))
  match contentTypes.find? (·.1.contains ext) with
  | some entry => entry.2
  | none => "application/octet-stream"

/-- The size and the time, in hexadecimal. -/
def etag (size : Nat) (modified : Option Nat) : String :=
  "\"" ++ String.ofList (Nat.toDigits 16 size) ++ "-" ++
    String.ofList (Nat.toDigits 16 (modified.getD 0)) ++ "\""

def loadFile (disk : Disk) (path : List Char) : Except StaticFileError CachedFile :=
  let fullPath := join h.rootPath path
  match disk fullPath with
  | .absent => .error .notFound
  | .unreadable => .error .ioError
  | .file data modified =>
    if h.maxFileSize < data.length then .error .tooLarge
    else .ok ⟨data, h.guessContentType fullPath, data.length, etag data.length modified⟩

def normalizePath (path : List Char) : Except StaticFileError (List Char) :=
  let path := path.dropWhile (· == '/')
  if hasDotDot path then .error .invalidPath else .ok path

/-! ## Serving -/

/-- What `serve` does with the cache and the disk; each is one step among the other threads'. -/
inductive FileOp
  | cached (key : List Char)
  | loadFile (path : List Char)
  | cacheLen
  | insert (key : List Char) (file : CachedFile)

abbrev FileOp.Res : FileOp → Type
  | .cached _ => Option CachedFile
  | .loadFile _ => Except StaticFileError CachedFile
  | .cacheLen => Nat
  | .insert _ _ => Unit

abbrev Serving := Prog FileOp FileOp.Res Empty

def serve (path : List Char) : Serving (Except StaticFileError CachedFile) :=
  match normalizePath path with
  | .error e => .ret (.error e)
  | .ok cleanPath =>
    (Prog.call (FileOp.cached cleanPath)).bind fun (cached : Option CachedFile) =>
    match cached with
    | some file => .ret (.ok file)
    | none =>
      (Prog.call (FileOp.loadFile cleanPath)).bind
        fun (loaded : Except StaticFileError CachedFile) =>
      match loaded with
      | .error e => .ret (.error e)
      | .ok file =>
        (Prog.call FileOp.cacheLen).bind fun (size : Nat) =>
        if size < h.maxCacheSize then
          (Prog.call (FileOp.insert cleanPath file)).bind fun _ => .ret (.ok file)
        else .ret (.ok file)

def CachedFile.whole (file : CachedFile) : FileResponse :=
  ⟨file.data, file.contentType, file.etag, 200⟩

/-- The part of the path that names the file. -/
def filePath (path : List Char) : List Char :=
  let filePath := ((stripStart h.urlPrefix path).getD path).dropWhile (· == '/')
  if filePath = [] then h.indexFile else filePath

/-- The error is the text of a `FileNotFoundError`. -/
def serveFile (path : List Char) (ifNoneMatch : Option String) :
    Serving (Except String FileResponse) :=
  (h.serve (h.filePath path)).bind fun served =>
  match served with
  | .ok cached =>
    if ifNoneMatch = some cached.etag then
      .ret (.ok ⟨[], cached.contentType, cached.etag, 304⟩)
    else .ret (.ok (CachedFile.whole cached))
  | .error e =>
    match e, h.spaMode with
    | .notFound, true => (h.serve h.indexFile).bind fun served =>
      match served with
      | .ok cached => .ret (.ok (CachedFile.whole cached))
      | .error _ => .ret (.error "index.html not found")
    | _, _ => .ret (.error e.toString)

/-! ## Threads that serve -/

/-- The cache, and with which paths `load_file` was called, on the disk as it was then. -/
structure FileStore where
  cache : Table (List Char) CachedFile
  loads : List (List Char × Disk)

namespace FileStore

def perform (disk : Disk) : (op : FileOp) → FileStore → op.Res × FileStore
  | .cached key, s => (s.cache.lookup key, s)
  | .loadFile path, s => (h.loadFile disk path, { s with loads := s.loads ++ [(path, disk)] })
  | .cacheLen, s => (s.cache.keys.length, s)
  | .insert key file, s => ((), { s with cache := s.cache.insert key file })

def exec (disk : Disk) (op : FileOp) (s : FileStore) : Except Empty op.Res × FileStore :=
  (.ok (perform h disk op s).1, (perform h disk op s).2)

end FileStore

/-- A request that is served returns its path with the answer. -/
def request (path : List Char) (ifNoneMatch : Option String) :
    Serving (List Char × Except String FileResponse) :=
  (h.serveFile path ifNoneMatch).bind fun response => .ret (path, response)

abbrev ServerState := Config FileStore (Serving (List Char × Except String FileResponse))

inductive ServerStep
  | request (path : List Char) (ifNoneMatch : Option String)
  /-- The thread does its next operation, with the disk as it is. -/
  | move (thread : Nat) (disk : Disk)
  | clearCache

def ServerStep.step (s : ServerState) : ServerStep → Option ServerState
  | .request path ifNoneMatch => some ⟨s.shared, s.threads ++ [h.request path ifNoneMatch]⟩
  | .move thread disk => stepThread (Prog.move (FileStore.exec h)) s thread disk
  | .clearCache => some ⟨{ s.shared with cache := ∅ }, s.threads⟩

def initial : ServerState := ⟨⟨∅, []⟩, []⟩

/-! ## What is opened, and what the cache holds -/

/-- The path leads to something in the root directory. -/
structure Confined (path : List Char) : Prop where
  relative : isAbsolute path = false
  plain : ['.', '.'] ∉ components path
  inside : LiesIn h.rootPath (join h.rootPath path)

/-- The file is what `load_file` read, at some time, at the root joined with that path. -/
def FileStore.Loaded (s : FileStore) (path : List Char) (file : CachedFile) : Prop :=
  ∃ disk, (path, disk) ∈ s.loads ∧ h.loadFile disk path = .ok file

/-- The answer is about a file that was loaded for the path, or for the index that stands in. -/
def Answers (known : Set (List Char × CachedFile)) (path : List Char) (r : FileResponse) : Prop :=
  ∃ cleanPath file, (normalizePath (h.filePath path) = .ok cleanPath ∨
      h.spaMode = true ∧ normalizePath h.indexFile = .ok cleanPath) ∧ (cleanPath, file) ∈ known ∧
    (r = CachedFile.whole file ∨ r = ⟨[], file.contentType, file.etag, 304⟩)

variable {h}

theorem confined_of_normalizePath {path cleanPath : List Char}
    (hnormal : normalizePath path = .ok cleanPath) : Confined h cleanPath := by
  unfold normalizePath at hnormal
  dsimp only at hnormal
  split_ifs at hnormal with hdots
  obtain rfl := Except.ok.inj hnormal
  have hrelative : isAbsolute (path.dropWhile (· == '/')) = false := by
    unfold isAbsolute
    cases hpath : path.dropWhile (· == '/') with
    | nil => rfl
    | cons c cs =>
      have hc : (c == '/') = false := by
        have hhead := List.head?_dropWhile_not (· == '/') path
        rw [hpath] at hhead
        simpa using hhead
      simpa using hc
  have hplain := dotDot_not_mem_components (Bool.eq_false_iff.mpr hdots)
  exact ⟨hrelative, hplain, liesIn_join _ hrelative (staysBelow_of_no_dotDot hplain 0)⟩

/-! ## Each thread on its own -/

abbrev Known := Set (List Char × CachedFile)

variable (h) in
def Allowed : FileOp → Known → Prop
  | .loadFile path, _ => Confined h path
  | .insert key file, known => (key, file) ∈ known
  | _, _ => True

def Learnt : (op : FileOp) → Except Empty op.Res → Known → Prop
  | .cached key, r, known => ∀ file, r = .ok (some file) → (key, file) ∈ known
  | .loadFile path, r, known => ∀ file, r = .ok (.ok file) → (path, file) ∈ known
  | _, _, _ => True

theorem Learnt.mono (op : FileOp) (r : Except Empty op.Res) (known known' : Known)
    (hlearnt : Learnt op r known) (hknown : known ≤ known') : Learnt op r known' := by
  cases op with
  | cached key => exact fun file hr => hknown (hlearnt file hr)
  | loadFile path => exact fun file hr => hknown (hlearnt file hr)
  | cacheLen => trivial
  | insert key file => trivial

def ServePromise (path : List Char) (r : Except Empty (Except StaticFileError CachedFile))
    (known : Known) : Prop :=
  ∀ file, r = .ok (.ok file) →
    ∃ cleanPath, normalizePath path = .ok cleanPath ∧ (cleanPath, file) ∈ known

variable {known : Known}

theorem secure_ret_error {path : List Char} {e : StaticFileError} :
    (.ret (.error e) : Serving _).Secure (Allowed h) Learnt (ServePromise path) known :=
  fun _ _ _ hr => nomatch Except.ok.inj hr

theorem secure_ret_file {path cleanPath : List Char} {file : CachedFile}
    (hpath : normalizePath path = .ok cleanPath) (hfile : (cleanPath, file) ∈ known) :
    (.ret (.ok file) : Serving _).Secure (Allowed h) Learnt (ServePromise path) known := by
  intro known' hknown file' hr
  obtain rfl := Except.ok.inj (Except.ok.inj hr)
  exact ⟨cleanPath, hpath, hknown hfile⟩

theorem secure_serve (path : List Char) :
    (h.serve path).Secure (Allowed h) Learnt (ServePromise path) known := by
  unfold serve
  cases hpath : normalizePath path with
  | error e => exact secure_ret_error
  | ok cleanPath =>
    have hconfined : Confined h cleanPath := confined_of_normalizePath hpath
    refine (Prog.Secure.call Learnt.mono fun _ _ => trivial).bind
      (fun cached known₁ _ hcached => ?_) nofun
    split
    next file => exact secure_ret_file hpath (hcached file rfl)
    next =>
      refine (Prog.Secure.call Learnt.mono fun _ _ => hconfined).bind
        (fun loaded known₂ _ hloaded => ?_) nofun
      split
      next e => exact secure_ret_error
      next file =>
        have hfile : (cleanPath, file) ∈ known₂ := hloaded file rfl
        refine (Prog.Secure.call Learnt.mono fun _ _ => trivial).bind
          (fun size known₃ hsize _ => ?_) nofun
        split
        next =>
          refine (Prog.Secure.call Learnt.mono fun _ hknown => hknown (hsize hfile)).bind
            (fun _ known₄ hinsert _ => ?_) nofun
          exact secure_ret_file hpath (hinsert (hsize hfile))
        next => exact secure_ret_file hpath (hsize hfile)

variable (h) in
def RequestPromise (r : Except Empty (List Char × Except String FileResponse)) (known : Known) :
    Prop :=
  ∀ path response, r = .ok (path, .ok response) → Answers h known path response

/-- A request returns what it made of a served file, and its path. -/
theorem secure_answer {path cleanPath : List Char} {file : CachedFile} {response : FileResponse}
    (hpath : normalizePath (h.filePath path) = .ok cleanPath ∨
      h.spaMode = true ∧ normalizePath h.indexFile = .ok cleanPath) (hfile : (cleanPath, file) ∈ known)
    (hresponse : response = CachedFile.whole file ∨
      response = ⟨[], file.contentType, file.etag, 304⟩) :
    (.ret (path, .ok response) : Serving _).Secure (Allowed h) Learnt (RequestPromise h) known := by
  intro known' hknown path' response' hr
  obtain ⟨hpath', hr⟩ := Prod.mk.inj (Except.ok.inj hr)
  obtain rfl := Except.ok.inj hr
  rw [← hpath']
  exact ⟨cleanPath, file, hpath, hknown hfile, hresponse⟩

theorem secure_failure {path : List Char} {message : String} :
    (.ret (path, .error message) : Serving _).Secure (Allowed h) Learnt (RequestPromise h)
      known := by
  intro known' hknown path' response' hr
  exact absurd (Prod.mk.inj (Except.ok.inj hr)).2 nofun

theorem secure_request (path : List Char) (ifNoneMatch : Option String) :
    (h.request path ifNoneMatch).Secure (Allowed h) Learnt (RequestPromise h) known := by
  unfold request serveFile
  rw [Prog.bind_assoc]
  refine (secure_serve _).bind (fun served known₁ _ hserved => ?_) nofun
  cases served with
  | ok cached =>
    obtain ⟨cleanPath, hpath, hfile⟩ := hserved cached rfl
    dsimp only
    split_ifs
    · exact secure_answer (.inl hpath) hfile (.inr rfl)
    · exact secure_answer (.inl hpath) hfile (.inl rfl)
  | error e =>
    dsimp only
    split
    next _ hspa =>
      rw [Prog.bind_assoc]
      refine (secure_serve _).bind (fun served known₂ _ hserved => ?_) nofun
      cases served with
      | ok cached =>
        obtain ⟨cleanPath, hpath, hfile⟩ := hserved cached rfl
        exact secure_answer (.inr ⟨hspa, hpath⟩) hfile (.inl rfl)
      | error e => exact secure_failure
    next => exact secure_failure

/-! ## All threads together -/

namespace FileStore

variable (h) in
structure Sound (s : FileStore) : Prop where
  confined : ∀ load ∈ s.loads, Confined h load.1
  cached : ∀ key file, s.cache.lookup key = some file → Loaded h s key file

variable (h) in
def loaded (s : FileStore) : Known := {entry | Loaded h s entry.1 entry.2}

theorem sound_exec (disk : Disk) (op : FileOp) (s : FileStore) (hop : Allowed h op (loaded h s))
    (hs : Sound h s) : Sound h (exec h disk op s).2 ∧ loaded h s ≤ loaded h (exec h disk op s).2 ∧
      Learnt op (exec h disk op s).1 (loaded h (exec h disk op s).2) := by
  cases op with
  | cached key => exact ⟨hs, le_refl _, fun file hr => hs.cached key file (Except.ok.inj hr)⟩
  | cacheLen => exact ⟨hs, le_refl _, trivial⟩
  | insert key file =>
    refine ⟨⟨hs.confined, fun key' file' hlookup => ?_⟩, le_refl _, trivial⟩
    have hlookup : (s.cache.insert key file).lookup key' = some file' := hlookup
    rw [Table.lookup_insert_eq] at hlookup
    split_ifs at hlookup with hkey
    · obtain rfl := Option.some.inj hlookup
      rw [hkey]
      exact hop
    · exact hs.cached key' file' hlookup
  | loadFile path =>
    have hgrows : loaded h s ≤ loaded h (exec h disk (.loadFile path) s).2 :=
      fun entry ⟨disk', hmem, hload⟩ => ⟨disk', List.mem_append_left _ hmem, hload⟩
    refine ⟨⟨forall_mem_concat hs.confined hop, fun key file hlookup => ?_⟩, hgrows,
      fun file hr => ?_⟩
    · exact @hgrows (key, file) (hs.cached key file hlookup)
    · exact ⟨disk, List.mem_append_right _ (List.mem_singleton_self _), Except.ok.inj hr⟩

end FileStore

theorem allSecure_step {s s' : ServerState} {step : ServerStep}
    (hs : Prog.AllSecure (FileStore.Sound h) (FileStore.loaded h) (Allowed h) Learnt
      (RequestPromise h) s) (hstep : step.step h s = some s') :
    Prog.AllSecure (FileStore.Sound h) (FileStore.loaded h) (Allowed h) Learnt
      (RequestPromise h) s' := by
  cases step with
  | request path ifNoneMatch =>
    obtain rfl := Option.some.inj hstep
    exact hs.start fun w => secure_request path ifNoneMatch
  | move thread disk => exact hs.step FileStore.sound_exec hstep
  | clearCache =>
    obtain rfl := Option.some.inj hstep
    exact ⟨⟨hs.sound.confined, nofun⟩, hs.threads⟩

theorem initial_allSecure : Prog.AllSecure (FileStore.Sound h) (FileStore.loaded h) (Allowed h)
    Learnt (RequestPromise h) initial :=
  ⟨⟨nofun, nofun⟩, nofun⟩

/-- However the requests are interleaved, every path that is loaded leads into the root, every
cached file was loaded from the root joined with its key, and every answer is one of those
files. -/
theorem confined_and_loaded {s : ServerState} (hs : Reaches (ServerStep.step h) initial s) :
    (∀ load ∈ s.shared.loads, Confined h load.1) ∧
      (∀ key file, s.shared.cache.lookup key = some file → s.shared.Loaded h key file) ∧
      ∀ path response, .ret (path, .ok response) ∈ s.threads →
        Answers h (s.shared.loaded h) path response := by
  have hsecure := hs.invariant (fun _ _ _ hinv hstep => allSecure_step hinv hstep)
    initial_allSecure
  refine ⟨hsecure.sound.confined, hsecure.sound.cached, fun path response hmem => ?_⟩
  exact hsecure.threads _ hmem _ (le_refl _) path response rfl

/-- A handler that answers unknown paths with the index. -/
def pages : StaticFileHandler := { rootPath := "pages".toList, spaMode := true, toLowercase := id }

def onlyIndex : Disk := fun path =>
  if path = "pages/index.html".toList then .file [] none else .absent

/-- The path is not found, and the index is loaded. -/
theorem index_is_confined : Confined pages "index.html".toList :=
  (@confined_and_loaded pages _ ⟨[.request "/static//a/b".toList none, .move 0 onlyIndex,
    .move 0 onlyIndex, .move 0 onlyIndex, .move 0 onlyIndex], rfl⟩).1
    ("index.html".toList, onlyIndex) (List.mem_cons_of_mem _ (List.mem_singleton_self _))

end StaticFileHandler

end Hypern.Core
