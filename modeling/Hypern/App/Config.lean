import Hypern.Lib.Dict
import Hypern.Lib.Effect
import Hypern.Lib.Words
import Hypern.Python.Numeral

/-! `config.py`. An `Environ` is a mapping of which a key that has been read can neither be set nor
deleted. Code reaches it through its five methods only, so the others, which come with
`MutableMapping`, are programs over these. -/

namespace Hypern.App

open Lib Python

def keyError (key : String) : PyExc :=
  ⟨["KeyError", "LookupError", "Exception", "BaseException", "object"], key⟩

structure Environ where
  environ : Dict String String
  hasBeenRead : List String

namespace Environ

inductive Op
  | getItem (key : String)
  | setItem (key value : String)
  | delItem (key : String)
  | iter
  | len

abbrev Op.Res : Op → Type
  | .getItem _ => String
  | .setItem _ _ | .delItem _ => Unit
  | .iter => List String
  | .len => Nat

abbrev Code (α : Type) := Prog Op Op.Res PyExc α

def environError (what key : String) : PyExc :=
  builtinError "EnvironError"
    ("Attempting to " ++ what ++ " environ['" ++ key ++ "'], but the value has already been read.")

def lookup (s : Environ) (key : String) : Option String := s.environ.lookup key

/-- The key has been asked for. -/
def read (s : Environ) (key : String) : Environ := { s with hasBeenRead := key :: s.hasBeenRead }

def step : (op : Op) → Environ → Except PyExc op.Res × Environ
  | .getItem key, s =>
    (match s.lookup key with | some value => .ok value | none => .error (keyError key), s.read key)
  | .setItem key value, s =>
    if key ∈ s.hasBeenRead then (.error (environError "set" key), s)
    else (.ok (), { s with environ := s.environ.setItem key value })
  | .delItem key, s =>
    if key ∈ s.hasBeenRead then (.error (environError "delete" key), s)
    else if s.lookup key = none then (.error (keyError key), s)
    else (.ok (), { s with environ := s.environ.delItem key })
  | .iter, s => (.ok s.environ.keys, s)
  | .len, s => (.ok s.environ.entries.length, s)

/-! ## The methods of `MutableMapping` -/

/-- `try: body except KeyError: handler` followed by `otherwise`. -/
def tryKeyError {α β : Type} (body : Code α) (handler : Code β) (otherwise : α → Code β) : Code β :=
  body.attempt.bind fun
    | .ok a => otherwise a
    | .error e => if e.isInstance "KeyError" then handler else .raise e

def getItem (key : String) : Code String := Prog.call (Op.getItem key)

def setItem (key value : String) : Code Unit := Prog.call (Op.setItem key value)

def delItem (key : String) : Code Unit := Prog.call (Op.delItem key)

def contains (key : String) : Code Bool := tryKeyError (getItem key) (.ret false) fun _ => .ret true

def get (key : String) : Code (Option String) :=
  tryKeyError (getItem key) (.ret none) fun value => .ret (some value)

def pop (key : String) (default : Option String) : Code String :=
  tryKeyError (getItem key)
    (match default with | some value => .ret value | none => .raise (keyError key))
    fun value => (delItem key).bind fun _ => .ret value

def popItem : Code (String × String) :=
  (Prog.call Op.iter : Code (List String)).bind fun
    | [] => .raise (keyError "")
    | key :: _ => (getItem key).bind fun value => (delItem key).bind fun _ => .ret (key, value)

/-- `popitem` until it raises a `KeyError`, for at most `fuel` items. -/
def clear : (fuel : Nat) → Code Unit
  | 0 => .ret ()
  | fuel + 1 => tryKeyError popItem (.ret ()) fun _ => clear fuel

def setDefault (key value : String) : Code String :=
  tryKeyError (getItem key) ((setItem key value).bind fun _ => .ret value) .ret

def update : List (String × String) → Code Unit
  | [] => .ret ()
  | (key, value) :: entries => (setItem key value).bind fun _ => update entries

/-! ## What a key that has been read keeps -/

variable {s : Environ} {key value : String} {α : Type}

/-- The key has been read, and stands for this value or is missing. -/
structure Frozen (key : String) (value : Option String) (s : Environ) : Prop where
  read : key ∈ s.hasBeenRead
  lookup : s.lookup key = value

theorem Frozen.step {value : Option String} (op : Op) (s : Environ) (h : Frozen key value s) :
    Frozen key value (step op s).2 := by
  have hne : ∀ other, other ∉ s.hasBeenRead → key ≠ other := by
    rintro other hother rfl
    exact hother h.read
  cases op with
  | getItem other => exact ⟨List.mem_cons_of_mem other h.read, h.lookup⟩
  | setItem other new =>
    simp only [Environ.step]
    split_ifs with hother
    · exact h
    · refine ⟨h.read, ?_⟩
      have hsame := s.environ.lookup_setItem other key new
      rw [if_neg (hne other hother)] at hsame
      exact hsame.trans h.lookup
  | delItem other =>
    simp only [Environ.step]
    split_ifs with hother hmissing
    · exact h
    · exact h
    · refine ⟨h.read, ?_⟩
      have hsame := s.environ.lookup_delItem other key
      rw [if_neg (hne other hother)] at hsame
      exact hsame.trans h.lookup
  | iter | len => exact h

/-- No code can change what a key that was read once stands for. -/
theorem Frozen.run {value : Option String} (h : Frozen key value s) (code : Code α) :
    Frozen key value (Prog.run Environ.step code s).2 :=
  Prog.Preserves.of_step (fun op s hs => hs.step op s) code s h

theorem mem_read (s : Environ) (key : String) : key ∈ (s.read key).hasBeenRead := List.mem_cons_self

theorem run_getItem (key : String) (s : Environ) :
    Prog.run step (getItem key) s =
      (match s.lookup key with | some value => .ok value | none => .error (keyError key), s.read key) := by
  unfold getItem
  rw [Prog.run_call]
  rfl

/-- What a method goes on with that begins by reading a key. -/
theorem run_tryKeyError_getItem {handler : Code α} {otherwise : String → Code α} :
    Prog.run step (tryKeyError (getItem key) handler otherwise) s =
      match s.lookup key with
      | some value => Prog.run step (otherwise value) (s.read key)
      | none => Prog.run step handler (s.read key) := by
  unfold tryKeyError
  rw [Prog.run_bind, Prog.run_attempt, run_getItem]
  cases s.lookup key <;> rfl

theorem run_contains (key : String) (s : Environ) :
    Prog.run step (contains key) s = (.ok (s.lookup key).isSome, s.read key) := by
  unfold contains
  rw [run_tryKeyError_getItem]
  cases s.lookup key <;> rfl

theorem run_delItem_read (h : key ∈ s.hasBeenRead) :
    Prog.run step (delItem key) s = (.error (environError "delete" key), s) := by
  unfold delItem
  rw [Prog.run_call]
  exact if_pos h

theorem run_setItem_read (h : key ∈ s.hasBeenRead) :
    Prog.run step (setItem key value) s = (.error (environError "set" key), s) := by
  unfold setItem
  rw [Prog.run_call]
  exact if_pos h

theorem run_pop (key : String) (default : Option String) (s : Environ) :
    Prog.run step (pop key default) s =
      (match s.lookup key, default with
        | some _, _ => .error (environError "delete" key)
        | none, some value => .ok value
        | none, none => .error (keyError key), s.read key) := by
  unfold pop
  rw [run_tryKeyError_getItem]
  cases s.lookup key with
  | some value =>
    simp only
    rw [Prog.run_bind, run_delItem_read (s.mem_read key)]
  | none => cases default <;> rfl

theorem run_setDefault (key value : String) (s : Environ) :
    Prog.run step (setDefault key value) s =
      (match s.lookup key with
        | some found => .ok found
        | none => .error (environError "set" key), s.read key) := by
  unfold setDefault
  rw [run_tryKeyError_getItem]
  cases s.lookup key with
  | some found => rfl
  | none =>
    simp only
    rw [Prog.run_bind, run_setItem_read (s.mem_read key)]

theorem run_popItem_nil (h : s.environ.keys = []) :
    Prog.run step popItem s = (.error (keyError ""), s) := by
  unfold popItem
  rw [Prog.run_bind, Prog.run_call]
  simp only [step, h]
  rfl

theorem run_popItem_cons {first : String} {rest : List String} (h : s.environ.keys = first :: rest) :
    Prog.run step popItem s = (.error (environError "delete" first), s.read first) := by
  have hfound : s.lookup first ≠ none := Dict.mem_keys_iff.mp (by simp [h])
  obtain ⟨value, hvalue⟩ := Option.ne_none_iff_exists'.mp hfound
  unfold popItem
  rw [Prog.run_bind, Prog.run_call]
  simp only [step, h]
  rw [Prog.run_bind, run_getItem, hvalue]
  simp only
  rw [Prog.run_bind, run_delItem_read (s.mem_read first)]

theorem run_clear_nil (fuel : Nat) (h : s.environ.keys = []) :
    Prog.run step (clear (fuel + 1)) s = (.ok (), s) := by
  unfold clear tryKeyError
  rw [Prog.run_bind, Prog.run_attempt, run_popItem_nil h]
  rfl

theorem run_clear_cons (fuel : Nat) {first : String} {rest : List String}
    (h : s.environ.keys = first :: rest) :
    Prog.run step (clear (fuel + 1)) s = (.error (environError "delete" first), s.read first) := by
  unfold clear tryKeyError
  rw [Prog.run_bind, Prog.run_attempt, run_popItem_cons h]
  rfl

/-- The methods that read a key before they change it never change anything: `pop` and `popitem`
fail on every key there is, `clear` on every mapping that is not empty, and `setdefault` on every
key there is not. -/
theorem reading_methods_never_change (s : Environ) (key value : String) (default : Option String)
    (fuel : Nat) :
    (Prog.run step (pop key default) s).2.environ = s.environ ∧
      (Prog.run step popItem s).2.environ = s.environ ∧
      (Prog.run step (clear (fuel + 1)) s).2.environ = s.environ ∧
      (Prog.run step (setDefault key value) s).2.environ = s.environ ∧
      (s.lookup key ≠ none →
        (Prog.run step (pop key default) s).1 = .error (environError "delete" key)) ∧
      (s.lookup key = none →
        (Prog.run step (setDefault key value) s).1 = .error (environError "set" key)) ∧
      (∀ first rest, s.environ.keys = first :: rest →
        (Prog.run step popItem s).1 = .error (environError "delete" first) ∧
        (Prog.run step (clear (fuel + 1)) s).1 = .error (environError "delete" first)) := by
  have hitems : (Prog.run step popItem s).2.environ = s.environ ∧
      (Prog.run step (clear (fuel + 1)) s).2.environ = s.environ := by
    cases hkeys : s.environ.keys with
    | nil => rw [run_popItem_nil hkeys, run_clear_nil fuel hkeys]; exact ⟨rfl, rfl⟩
    | cons first rest =>
      rw [run_popItem_cons hkeys, run_clear_cons fuel hkeys]
      exact ⟨rfl, rfl⟩
  refine ⟨by rw [run_pop]; rfl, hitems.1, hitems.2, by rw [run_setDefault]; rfl, fun hfound => ?_,
    fun hmissing => ?_, fun first rest hkeys => ?_⟩
  · obtain ⟨found, hvalue⟩ := Option.ne_none_iff_exists'.mp hfound
    rw [run_pop, hvalue]
  · rw [run_setDefault, hmissing]
  · rw [run_popItem_cons hkeys, run_clear_cons fuel hkeys]
    exact ⟨rfl, rfl⟩

end Environ

/-! ## Config -/

/-- What a conversion needs of Python's objects. -/
structure Objects (V : Type) where
  isNone : V → Bool
  ofStr : String → V
  asStr : V → Option String
  ofBool : Bool → V
  truth : V → Except PyExc V
  lower : String → String
  str : V → String

inductive Cast (V : Type)
  | bool
  | function (name : String) (call : V → Except PyExc V)

structure Config where
  envPrefix : String
  fileValues : Dict String String

namespace Config

variable {V : Type} (objects : Objects V) (config : Config)

def boolMapping : List (String × Bool) := [("true", true), ("1", true), ("false", false), ("0", false)]

def notAValid (key value type : String) : PyExc :=
  valueError ("Config '" ++ key ++ "' has value '" ++ value ++ "'. Not a valid " ++ type ++ ".")

/-- `try: return cast(value)` -/
def tryCast (key : String) (value : V) (name : String) (result : Except PyExc V) : Except PyExc V :=
  match result with
  | .ok cast => .ok cast
  | .error e =>
    if e.isInstance "TypeError" || e.isInstance "ValueError" then
      .error (notAValid key (objects.str value) name)
    else .error e

def performCast (key : String) (value : V) (cast : Option (Cast V)) : Except PyExc V :=
  match cast with
  | none => .ok value
  | some cast =>
    if objects.isNone value then .ok value
    else match cast, objects.asStr value with
      | .bool, some text =>
        match boolMapping.lookup (objects.lower text) with
        | some b => .ok (objects.ofBool b)
        | none => .error (notAValid key (objects.lower text) "bool")
      | .bool, none => tryCast objects key value "bool" (objects.truth value)
      | .function name call, _ => tryCast objects key value name (call value)

def missing (key : String) : PyExc :=
  keyError ("Config '" ++ key ++ "' is missing, and has no default.")

/-- `default` is none where it is left out. -/
def get (key : String) (cast : Option (Cast V)) (default : Option V) : Environ.Code V :=
  let key := config.envPrefix ++ key
  (Environ.contains key).bind fun found =>
    if found then
      (Environ.getItem key).bind fun value => .ofExcept (performCast objects key (objects.ofStr value) cast)
    else match config.fileValues.lookup key, default with
      | some value, _ => .ofExcept (performCast objects key (objects.ofStr value) cast)
      | none, some value => .ofExcept (performCast objects key value cast)
      | none, none => .raise (missing key)

/-- What `get` returns is a function of what the key stands for in the environment. -/
def answer (key : String) (cast : Option (Cast V)) (default : Option V) (found : Option String) :
    Except PyExc V :=
  match found, config.fileValues.lookup key, default with
  | some value, _, _ | none, some value, _ => performCast objects key (objects.ofStr value) cast
  | none, none, some value => performCast objects key value cast
  | none, none, none => .error (missing key)

variable {objects config}

theorem run_get (key : String) (cast : Option (Cast V)) (default : Option V) (s : Environ) :
    (Prog.run Environ.step (config.get objects key cast default) s).1 =
        config.answer objects (config.envPrefix ++ key) cast default (s.lookup (config.envPrefix ++ key)) ∧
      Environ.Frozen (config.envPrefix ++ key) (s.lookup (config.envPrefix ++ key))
        (Prog.run Environ.step (config.get objects key cast default) s).2 := by
  unfold get answer
  generalize config.envPrefix ++ key = key
  simp only
  rw [Prog.run_bind, Environ.run_contains]
  cases hfound : s.lookup key with
  | some value =>
    have hagain : (s.read key).lookup key = some value := hfound
    simp only [Option.isSome_some, if_true]
    rw [Prog.run_bind, Environ.run_getItem, hagain]
    simp only [Prog.run_ofExcept]
    exact ⟨trivial, Environ.mem_read _ key, hfound⟩
  | none =>
    have hfrozen : Environ.Frozen key none (s.read key) := ⟨s.mem_read key, hfound⟩
    simp only [Option.isSome_none, Bool.false_eq_true, if_false]
    cases config.fileValues.lookup key with
    | some value =>
      simp only [Prog.run_ofExcept]
      exact ⟨trivial, hfrozen⟩
    | none =>
      cases default with
      | some value =>
        simp only [Prog.run_ofExcept]
        exact ⟨trivial, hfrozen⟩
      | none => exact ⟨rfl, hfrozen⟩

/-- What was asked for once is answered the same ever after, whatever other code has done to the
environment through its methods in between. -/
theorem get_stable (key : String) (cast : Option (Cast V)) (default : Option V) (s : Environ)
    {α : Type} (code : Environ.Code α) :
    (Prog.run Environ.step (config.get objects key cast default)
      (Prog.run Environ.step code
        (Prog.run Environ.step (config.get objects key cast default) s).2).2).1 =
      (Prog.run Environ.step (config.get objects key cast default) s).1 := by
  obtain ⟨hfirst, hfrozen⟩ := @run_get V objects config key cast default s
  rw [(run_get key cast default _).1, hfirst, (hfrozen.run code).lookup]

end Config

end Hypern.App
