import Hypern.Core.DIValue
import Hypern.Lib.History

/-! Which names a container knows after a run of registrations and removals, and what removing a
name that is registered in both ways leaves behind. -/

namespace Hypern.Core

open Lib Python

variable {F : F64}

namespace DIContainer

section

variable {V : Type}

def new : DIContainer V := ⟨∅, []⟩

def has (di : DIContainer V) (name : String) : Bool :=
  decide (name ∈ di.singletons) || decide (name ∈ di.factories)

/-- The factories are asked only when there is no singleton. -/
def remove (di : DIContainer V) (name : String) : Bool × DIContainer V :=
  if name ∈ di.singletons then (true, { di with singletons := di.singletons.erase name })
  else (decide (name ∈ di.factories), { di with factories := di.factories.filter (· != name) })

end

end DIContainer

/-! ## Runs -/

inductive ContainerCall (F : F64)
  | singleton (name : String) (value : PyAny F)
  | factory (name : String)
  | remove (name : String)

namespace ContainerCall

def perform (di : DIContainer (DIValue F)) : ContainerCall F → DIContainer (DIValue F)
  | .singleton name value => di.singleton name value
  | .factory name => di.factory name
  | .remove name => (di.remove name).2

/-- Whether the call registers the name or removes it, if it does either. -/
def verdict (name : String) : ContainerCall F → Option Bool
  | .singleton other _ => if other = name then some true else none
  | .factory other => if other = name then some true else none
  | .remove other => if other = name then some false else none

/-- The container after the calls. -/
def run (calls : List (ContainerCall F)) : DIContainer (DIValue F) := calls.foldl perform .new

/-- The last call about the name registers it. -/
def Registered (calls : List (ContainerCall F)) (name : String) : Prop :=
  lastVerdict (verdict name) false calls = true

end ContainerCall

namespace DIContainer

/-- A new context has an entry for the name, whatever the factories return. -/
def Injects (di : DIContainer (DIValue F)) (name : String) : Prop :=
  ∀ (xxh3_64 : List UInt8 → UInt64) (values : String → PyAny F) (now later : Instant),
    ∃ ctx, di.createContext xxh3_64 (callFactory fun name => .ok (values name)) now later = .ok ctx ∧
      name ∈ ctx.values

variable {di : DIContainer (DIValue F)} {name other : String}

theorem has_iff : di.has name = true ↔ name ∈ di.singletons ∨ name ∈ di.factories := by
  simp [has]

/-! ## What a context has -/

section

variable {V : Type}

theorem mem_setValue {ctx : Context V} {key : String} {value : V} :
    name ∈ (ctx.setValue key value).values ↔ name = key ∨ name ∈ ctx.values :=
  AList.mem_insert _

theorem mem_foldl_setValue (entries : List (Sigma fun _ : String => V)) (ctx : Context V) :
    name ∈ (entries.foldl (fun ctx e => ctx.setValue e.1 e.2) ctx).values ↔
      name ∈ entries.keys ∨ name ∈ ctx.values := by
  induction entries generalizing ctx with
  | nil => simp
  | cons e entries ih =>
    rw [List.foldl_cons, ih, mem_setValue, List.keys_cons, List.mem_cons]
    tauto

/-- Factories that return make every name of theirs an entry. -/
theorem mem_callFactories (values : String → V) (names : List String) (ctx : Context V) :
    ∃ ctx', callFactories (fun name => .ok (values name)) names ctx = .ok ctx' ∧
      ∀ name, name ∈ ctx'.values ↔ name ∈ names ∨ name ∈ ctx.values := by
  induction names generalizing ctx with
  | nil => exact ⟨ctx, rfl, by simp⟩
  | cons key names ih =>
    obtain ⟨ctx', hcall, hmem⟩ := ih (ctx.setValue key (values key))
    refine ⟨ctx', hcall, fun name => ?_⟩
    rw [hmem, mem_setValue, List.mem_cons]
    tauto

end

theorem injects_iff : di.Injects name ↔ di.has name = true := by
  have hcontext (xxh3_64 : List UInt8 → UInt64) (values : String → PyAny F) (now later : Instant) :
      ∃ ctx, di.createContext xxh3_64 (callFactory fun name => .ok (values name)) now later = .ok ctx ∧
        (name ∈ ctx.values ↔ di.has name = true) := by
    obtain ⟨ctx, hcall, hmem⟩ := mem_callFactories (fun name => DIValue.fromPy (values name))
      di.factories (di.singletons.entries.foldl (fun ctx e => ctx.setValue e.1 e.2)
        (Context.new xxh3_64 now later))
    refine ⟨ctx, hcall, ?_⟩
    have hempty : name ∉ (Context.new xxh3_64 now later : Context (DIValue F)).values :=
      AList.notMem_empty name
    rw [hmem, mem_foldl_setValue, or_iff_left hempty, or_comm, has_iff]
    rfl
  constructor
  · intro h
    obtain ⟨ctx, hctx, hmem⟩ := h (fun _ => 0) (fun _ => .none) .zero .zero
    obtain ⟨ctx', hctx', hiff⟩ := hcontext (fun _ => 0) (fun _ => .none) .zero .zero
    rw [hctx] at hctx'
    rw [Except.ok.inj hctx'] at hmem
    exact hiff.mp hmem
  · intro h xxh3_64 values now later
    obtain ⟨ctx, hctx, hiff⟩ := hcontext xxh3_64 values now later
    exact ⟨ctx, hctx, hiff.mpr h⟩

/-! ## What a call does -/

theorem has_singleton (value : PyAny F) :
    (di.singleton other value).has name = true ↔ other = name ∨ di.has name = true := by
  rw [has_iff, has_iff, singleton, AList.mem_insert, eq_comm, or_assoc]

theorem has_factory : (di.factory other).has name = true ↔ other = name ∨ di.has name = true := by
  rw [has_iff, has_iff]
  unfold factory
  split_ifs with h
  · constructor
    · exact .inr
    · rintro (rfl | hname)
      · exact .inr h
      · exact hname
  · simp only [List.mem_append, List.mem_singleton]
    tauto

/-- The name is registered in both ways. -/
def Twice (di : DIContainer (DIValue F)) (name : String) : Prop :=
  name ∈ di.singletons ∧ name ∈ di.factories

theorem has_remove_of_twice (h : di.Twice name) :
    (di.remove name).1 = true ∧ (di.remove name).2.has name = true := by
  rw [has_iff, remove, if_pos h.1]
  exact ⟨rfl, .inr h.2⟩

theorem has_remove (h : ¬ di.Twice other) :
    (di.remove other).2.has name = true ↔ other ≠ name ∧ di.has name = true := by
  rw [has_iff, has_iff]
  unfold remove
  split_ifs with hsingle
  · have hfactory : other ∉ di.factories := fun hmem => h ⟨hsingle, hmem⟩
    rw [AList.mem_erase]
    by_cases heq : other = name
    · simp [← heq, hfactory]
    · simp [heq, Ne.symm heq]
  · rw [List.mem_filter]
    by_cases heq : other = name
    · simp [← heq, hsingle]
    · simp [heq, Ne.symm heq]

end DIContainer

/-! ## What a run leaves -/

namespace ContainerCall

/-- Both ways of asking for a name give what the history says. -/
def Recorded (calls : List (ContainerCall F)) : Prop :=
  ∀ name, ((run calls).has name = true ↔ Registered calls name) ∧
    ((run calls).Injects name ↔ Registered calls name)

/-- The names are recorded at all times, and what is removed is gone. -/
def Faithful (calls : List (ContainerCall F)) : Prop :=
  (∀ before, before <+: calls → Recorded before) ∧
    ∀ before name, before ++ [.remove name] <+: calls →
      ((run before).remove name).1 = true → (run (before ++ [.remove name])).has name = false

variable {calls before : List (ContainerCall F)} {call : ContainerCall F}

theorem run_concat : run (before ++ [call]) = call.perform (run before) := by
  rw [run, List.foldl_concat]
  rfl

theorem has_perform {di : DIContainer (DIValue F)} (name : String)
    (h : ∀ other, call = .remove other → ¬ di.Twice other) :
    (call.perform di).has name = (verdict name call).getD (di.has name) := by
  rw [Bool.eq_iff_iff]
  cases call with
  | singleton other value =>
    rw [perform, DIContainer.has_singleton, verdict]
    split_ifs with heq <;> simp [heq]
  | factory other =>
    rw [perform, DIContainer.has_factory, verdict]
    split_ifs with heq <;> simp [heq]
  | remove other =>
    rw [perform, DIContainer.has_remove (h other rfl), verdict]
    split_ifs with heq <;> simp [heq]

/-- The container has a name when the history says so. -/
theorem has_run (h : ∀ before name, before ++ [.remove name] <+: calls → ¬ (run before).Twice name)
    (name : String) : (run calls).has name = lastVerdict (verdict name) false calls := by
  induction calls using List.reverseRecOn with
  | nil => rfl
  | append_singleton calls call ih =>
    have hbefore := ih fun before other hstart =>
      h before other (hstart.trans (List.prefix_append calls [call]))
    rw [run_concat, lastVerdict_concat, ← hbefore]
    refine has_perform name fun other heq => ?_
    subst heq
    exact h calls other (List.prefix_refl _)

/-- A run is faithful exactly when no call removes a name that is registered in both ways. -/
theorem container_faithful_iff (calls : List (ContainerCall F)) : Faithful calls ↔
    ∀ before name, before ++ [.remove name] <+: calls → ¬ (run before).Twice name := by
  constructor
  · rintro ⟨-, hgone⟩ before name hprefix htwice
    obtain ⟨hremoved, hleft⟩ := DIContainer.has_remove_of_twice htwice
    have hfalse := hgone before name hprefix hremoved
    rw [run_concat, perform, hleft] at hfalse
    cases hfalse
  · intro h
    refine ⟨fun before hprefix name => ?_, fun before name hprefix _ => ?_⟩
    · have hrun := has_run (fun first other hfirst => h first other (hfirst.trans hprefix)) name
      rw [DIContainer.injects_iff, hrun]
      exact ⟨Iff.rfl, Iff.rfl⟩
    · rw [run_concat, has_perform name fun other heq => ?_, verdict, if_pos rfl]
      · rfl
      · cases heq
        exact h before name hprefix

/-- A name that is registered as a singleton and as a factory, and removed. -/
theorem factory_stays : ∃ calls : List (ContainerCall sampleF64),
    calls = [.singleton "db" (.int 1), .factory "db", .remove "db"] ∧ (run calls).has "db" = true ∧
      ¬ Faithful calls := by
  refine ⟨_, rfl, rfl, fun h => ?_⟩
  have hgone := h.2 [.singleton "db" (.int 1), .factory "db"] "db" (List.prefix_refl _) rfl
  cases hgone

end ContainerCall

end Hypern.Core
