import Mathlib.Data.Nat.Digits.Lemmas
import Hypern.Python.Object

/-! The per-request `Context` and the container that makes one. The values a container
holds are opaque here; `xxh3_64` is the hash of the `xxhash_rust` crate. -/

namespace Hypern.Core

open Python

/-- A reading of the monotonic clock, within what a `Duration` can hold. -/
structure Instant where
  nanos : Nat
  nanos_lt : nanos < 2 ^ 64 * 10 ^ 9

theorem Instant.zero_lt : 0 < 2 ^ 64 * 10 ^ 9 := by decide

/-- The reading at which the clock starts. -/
def Instant.zero : Instant := ⟨0, Instant.zero_lt⟩

/-- `start.elapsed()` when the clock reads `now`; it saturates at zero. -/
def Instant.elapsed (start now : Instant) : Nat := now.nanos - start.nanos

/-- `u128::to_le_bytes` -/
def toLeBytes (n : Nat) : List UInt8 := (Nat.digitsAppend 256 16 n).map UInt8.ofNat

/-- `format!("{:016x}", h)` -/
def format016x (h : UInt64) : String :=
  String.ofList ((Nat.digitsAppend 16 16 h.toNat).map Nat.digitChar).reverse

theorem map_digitsAppend_injOn {α : Type} {b : Nat} {f : Nat → α} (hb : 1 < b)
    (hf : Set.InjOn f {d | d < b}) (w : Nat) :
    Set.InjOn (fun n => (Nat.digitsAppend b w n).map f) {n | n < b ^ w} := by
  have hinv (n : Nat) : ((Nat.digitsAppend b w n).map f).map (Function.invFunOn f {d | d < b}) =
      Nat.digitsAppend b w n := by
    rw [List.map_map, List.map_congr_left (g := id), List.map_id]
    exact fun d hd => hf.leftInvOn_invFunOn (Nat.lt_of_mem_digitsAppend hb w d hd)
  intro m hm n hn h
  refine (Nat.bijOn_digitsAppend hb w).injOn hm hn ?_
  rw [← hinv m, ← hinv n]
  exact congrArg _ h

theorem toLeBytes_injOn : Set.InjOn toLeBytes {n | n < 2 ^ 128} := by
  refine map_digitsAppend_injOn (by decide) (fun c hc d hd h => ?_) 16
  have htoNat := congrArg UInt8.toNat h
  rwa [UInt8.toNat_ofNat_of_lt' hc, UInt8.toNat_ofNat_of_lt' hd] at htoNat

theorem digitChar_injOn : Set.InjOn Nat.digitChar {d | d < 16} := by
  have h : ∀ c < 16, ∀ d < 16, Nat.digitChar c = Nat.digitChar d → c = d := by decide
  exact fun c hc d hd => h c hc d hd

theorem format016x_injective : Function.Injective format016x := by
  intro g h heq
  have hlist := List.reverse_injective (String.ofList_injective heq)
  exact UInt64.toNat_inj.mp
    (map_digitsAppend_injOn (by decide) digitChar_injOn 16 g.toNat_lt h.toNat_lt hlist)

theorem Instant.elapsed_lt (start now : Instant) : start.elapsed now < 2 ^ 128 := by
  have h := now.nanos_lt
  unfold Instant.elapsed
  omega

section

variable (xxh3_64 : List UInt8 → UInt64) {V : Type}

def requestIdOf (age : Nat) : String := format016x (xxh3_64 (toLeBytes age))

structure Context (V : Type) where
  values : AList (fun _ : String => V)
  userId : Option String
  isAuthenticated : Bool
  roles : List String
  requestId : String
  startTime : Instant

def Context.new (now later : Instant) : Context V :=
  { values := ∅, userId := none, isAuthenticated := false, roles := [],
    requestId := requestIdOf xxh3_64 (now.elapsed later), startTime := now }

def Context.setValue (ctx : Context V) (key : String) (value : V) : Context V :=
  { ctx with values := ctx.values.insert key value }

def Context.setAuth (ctx : Context V) (userId : String) (roles : List String) : Context V :=
  { ctx with userId := some userId, isAuthenticated := true, roles := roles }

/-- `factories` keeps the names; what a factory returns is known only when it is called. -/
structure DIContainer (V : Type) where
  singletons : AList (fun _ : String => V)
  factories : List String

namespace DIContainer

def callFactories (call : String → Except PyExc V) :
    List String → Context V → Except PyExc (Context V)
  | [], ctx => .ok ctx
  | name :: names, ctx =>
    match call name with
    | .error e => .error e
    | .ok v => callFactories call names (ctx.setValue name v)

def createContext (di : DIContainer V) (call : String → Except PyExc V) (now later : Instant) :
    Except PyExc (Context V) :=
  let ctx := di.singletons.entries.foldl (fun ctx e => ctx.setValue e.1 e.2)
    (Context.new xxh3_64 now later)
  callFactories call di.factories ctx

theorem callFactories_requestId (call : String → Except PyExc V) (names : List String)
    (ctx : Context V) {ctx' : Context V} (h : callFactories call names ctx = .ok ctx') :
    ctx'.requestId = ctx.requestId := by
  induction names generalizing ctx with
  | nil => exact congrArg Context.requestId (Except.ok.inj h).symm
  | cons name names ih =>
    rw [callFactories] at h
    split at h
    · cases h
    · exact ih (ctx.setValue name _) h

theorem createContext_requestId {di : DIContainer V} {call : String → Except PyExc V}
    {now later : Instant} {ctx : Context V}
    (h : di.createContext xxh3_64 call now later = .ok ctx) :
    ctx.requestId = requestIdOf xxh3_64 (now.elapsed later) := by
  have hfold (es : List (Sigma fun _ : String => V)) (c : Context V) :
      (es.foldl (fun ctx e => ctx.setValue e.1 e.2) c).requestId = c.requestId := by
    induction es generalizing c with
    | nil => rfl
    | cons e es ih => exact ih _
  exact (callFactories_requestId call _ _ h).trans (hfold _ _)

end DIContainer

end

end Hypern.Core
