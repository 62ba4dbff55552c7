import Hypern.Lib.Table
import Hypern.Lib.Text
import Hypern.Middleware.Context

/-! The query parameters of a context are parsed when they are first asked for and kept from then
on, so whether somebody has read one decides what a later change of the query string does. -/

namespace Hypern.Middleware

open Http Lib

inductive QueryCall
  | get (name : String)
  | set (name value : String)
  | remove (name : String)
  | setString (queryString : String)

namespace QueryCall

def isGet : QueryCall → Bool
  | .get _ => true
  | _ => false

/-- A change of one parameter other than this one. -/
def Spares (name : String) : QueryCall → Prop
  | .set other _ | .remove other => other ≠ name
  | _ => False

/-- The parameter is read before the calls have set or removed it. -/
def Exposes (name : String) : List QueryCall → Prop
  | [] => False
  | .get other :: calls => name = other ∨ Exposes name calls
  | .set other _ :: calls => name ≠ other ∧ Exposes name calls
  | .remove other :: calls => name = other ∨ Exposes name calls
  | .setString _ :: calls => Exposes name calls

/-- The value of a parameter after the calls, from what it was before. -/
def value (name : String) : Option String → List QueryCall → Option String
  | v, [] => v
  | v, .set other w :: calls => value name (if name = other then some w else v) calls
  | v, .remove other :: calls => value name (if name = other then none else v) calls
  | v, .get _ :: calls => value name v calls
  | v, .setString _ :: calls => value name v calls

/-- The query string in force at the first call about a parameter. -/
def firstParsed : (queryString : String) → List QueryCall → Option String
  | _, [] => none
  | _, .setString queryString :: calls => firstParsed queryString calls
  | queryString, .get _ :: _ => some queryString
  | queryString, .set .. :: _ => some queryString
  | queryString, .remove _ :: _ => some queryString

/-- The two maps agree on all that the calls can tell of them. -/
def Agree (m m' : StrMap) (calls : List QueryCall) : Prop :=
  ∀ name, Exposes name calls → m.lookup name = m'.lookup name

/-- What the calls return if the parameters have been parsed. -/
def lookups : StrMap → List QueryCall → List (Option String)
  | _, [] => []
  | m, .get name :: calls => m.lookup name :: lookups m calls
  | m, .set name value :: calls => none :: lookups (m.insert name value) calls
  | m, .remove name :: calls => m.lookup name :: lookups (m.erase name) calls
  | m, .setString _ :: calls => none :: lookups m calls

/-- Takes the elements out whose mark is `false`; what has no mark stays. -/
def sift {α : Type*} : List Bool → List α → List α
  | mark :: marks, a :: as => if mark then a :: sift marks as else sift marks as
  | _, as => as

/-- Only reads are taken out. -/
def Deletes (marks : List Bool) (calls : List QueryCall) : Prop :=
  ∀ p ∈ marks.zip calls, p.1 = false → p.2.isGet = true

end QueryCall

namespace MiddlewareContext

open QueryCall

variable (c : Crates) (ctx : MiddlewareContext)

/-- A call and what it returns, which is nothing for the calls that only write. -/
def query : QueryCall → Option String × MiddlewareContext
  | .get name => ctx.getQuery c name
  | .set name value => (none, ctx.setQuery c name value)
  | .remove name => ctx.removeQuery c name
  | .setString queryString => (none, { ctx with queryString })

def after (calls : List QueryCall) : MiddlewareContext :=
  calls.foldl (fun ctx call => (ctx.query c call).2) ctx

def results (ctx : MiddlewareContext) : List QueryCall → List (Option String)
  | [] => []
  | call :: calls => (ctx.query c call).1 :: (ctx.query c call).2.results calls

/-- Without some of its reads the sequence gives each remaining call the result it had. -/
def ReadsAreFree (calls : List QueryCall) : Prop :=
  ∀ marks, Deletes marks calls → ctx.results c (sift marks calls) = sift marks (ctx.results c calls)

/-- A new query string is what the next read of a parameter finds. -/
def StringsTakeEffect (calls : List QueryCall) : Prop :=
  ∀ before queryString between name rest,
    calls = before ++ .setString queryString :: (between ++ .get name :: rest) →
    (∀ call ∈ between, call.Spares name) →
    ((ctx.after c (before ++ .setString queryString :: between)).getQuery c name).1 =
      (parseQuery c queryString).lookup name

/-! ## Conditions -/

/-- Whenever the parameters may be parsed first, from here on, they are what `m` says of all that
is read afterwards. -/
def Settled (m : StrMap) : (queryString : String) → List QueryCall → Prop
  | _, [] => True
  | _, .setString queryString :: calls => Settled m queryString calls
  | queryString, .get name :: calls =>
    Agree m (parseQuery c queryString) (.get name :: calls) ∧ Settled m queryString calls
  | queryString, .set name value :: calls =>
    Agree m (parseQuery c queryString) (.set name value :: calls)
  | queryString, .remove name :: calls => Agree m (parseQuery c queryString) (.remove name :: calls)

/-- The first read, if nothing is set or removed before it, parses what the parameters would be
parsed from without it. -/
def ReadsSettled : (queryString : String) → List QueryCall → Prop
  | _, [] => True
  | _, .setString queryString :: calls => ReadsSettled queryString calls
  | queryString, .get _ :: calls => Settled c (parseQuery c queryString) queryString calls
  | _, .set .. :: _ => True
  | _, .remove _ :: _ => True

/-- The parameters that the calls start from: those parsed at the start, or else those of the query
string in force at the first call about a parameter. -/
def parsedFrom (calls : List QueryCall) : Option StrMap :=
  ctx.queryParams.or ((firstParsed ctx.queryString calls).map (parseQuery c))

/-- Each new query string says of the parameter that is read next what the parameters parsed earlier
and the sets and removes since say, if there was a call about a parameter before. -/
def StringsAgree (calls : List QueryCall) : Prop :=
  ∀ before queryString between name rest,
    calls = before ++ .setString queryString :: (between ++ .get name :: rest) →
    (∀ call ∈ between, call.Spares name) →
    ∀ m, ctx.parsedFrom c before = some m →
      value name (m.lookup name) before = (parseQuery c queryString).lookup name

/-- A read that comes first settles what the parameters are, and a new query string after the
parameters have been parsed changes nothing. -/
def Orderly (calls : List QueryCall) : Prop :=
  (ctx.queryParams = none → ReadsSettled c ctx.queryString calls) ∧ ctx.StringsAgree c calls

end MiddlewareContext

/-! ## Parsed parameters -/

namespace QueryCall

variable {m m' : StrMap} {marks : List Bool} {call : QueryCall} {calls : List QueryCall}

/-- The calls tell two maps apart by the parameters that they expose, and by nothing else. -/
theorem lookups_eq_iff : lookups m calls = lookups m' calls ↔ Agree m m' calls := by
  unfold Agree
  induction calls generalizing m m' with
  | nil => exact iff_of_true rfl fun _ h => h.elim
  | cons call calls ih =>
    cases call with
    | get name =>
      simp only [lookups, Exposes, List.cons.injEq, ih, or_imp, forall_and, forall_eq]
    | set name value =>
      simp only [lookups, Exposes, List.cons.injEq, true_and, ih, Table.lookup_insert_eq]
      apply forall_congr'
      intro other
      by_cases hname : other = name <;> simp [hname]
    | remove name =>
      simp only [lookups, Exposes, List.cons.injEq, ih, Table.lookup_erase_eq, or_imp, forall_and,
        forall_eq]
      apply and_congr_right
      intro hsame
      apply forall_congr'
      intro other
      by_cases hname : other = name
      · subst hname
        exact iff_of_true (fun _ => by simp) fun _ => hsame
      · simp [hname]
    | setString queryString => simp only [lookups, Exposes, List.cons.injEq, true_and, ih]

theorem deletes_cons {mark : Bool} : Deletes (mark :: marks) (call :: calls) ↔
    (mark = false → call.isGet = true) ∧ Deletes marks calls := by
  unfold Deletes
  rw [List.zip_cons_cons, List.forall_mem_cons]

theorem sift_nil {α : Type*} (as : List α) : sift [] as = as := by
  cases as <;> rfl

/-- Reads of parsed parameters may be taken out. -/
theorem lookups_sift (h : Deletes marks calls) :
    lookups m (sift marks calls) = sift marks (lookups m calls) := by
  induction calls generalizing m marks with
  | nil => cases marks <;> rfl
  | cons call calls ih =>
    cases marks with
    | nil => rw [sift_nil, sift_nil]
    | cons mark marks =>
      obtain ⟨hget, hrest⟩ := deletes_cons.mp h
      cases mark with
      | true =>
        cases call <;> simp only [sift, lookups, if_true, ih hrest]
      | false =>
        cases call with
        | get name => exact ih hrest
        | set name value => cases hget rfl
        | remove name => cases hget rfl
        | setString queryString => cases hget rfl

/-- `out` is what the sequence returns under `f`, whichever of its reads are taken out. -/
def Alike (f : List QueryCall → List (Option String)) (out : List (Option String))
    (calls : List QueryCall) : Prop :=
  ∀ marks, Deletes marks calls → f (sift marks calls) = sift marks out

theorem alike_cons {f : List QueryCall → List (Option String)} {r : Option String}
    {out : List (Option String)} :
    Alike f (r :: out) (call :: calls) ↔
      (∀ marks, Deletes marks calls → f (call :: sift marks calls) = r :: sift marks out) ∧
        (call.isGet = true → Alike f out calls) := by
  constructor
  · intro h
    refine ⟨fun marks hmarks => ?_, fun hget marks hmarks => ?_⟩
    · exact h (true :: marks) (deletes_cons.mpr ⟨nofun, hmarks⟩)
    · exact h (false :: marks) (deletes_cons.mpr ⟨fun _ => hget, hmarks⟩)
  · rintro ⟨hkept, htaken⟩ marks hmarks
    cases marks with
    | nil =>
      have hall := hkept [] fun p hp => by cases hp
      rw [sift_nil] at hall ⊢
      rw [sift_nil]
      rwa [sift_nil] at hall
    | cons mark marks =>
      obtain ⟨hget, hrest⟩ := deletes_cons.mp hmarks
      cases mark with
      | true => exact hkept marks hrest
      | false => exact htaken (hget rfl) marks hrest

end QueryCall

namespace MiddlewareContext

open QueryCall

variable {c : Crates} {ctx : MiddlewareContext} {m : StrMap} {call : QueryCall}
  {calls : List QueryCall}

theorem params_of_some (h : ctx.queryParams = some m) : ctx.params c = m := by
  unfold params
  rw [h, Option.getD_some]

theorem params_of_none (h : ctx.queryParams = none) :
    ctx.params c = parseQuery c ctx.queryString := by
  unfold params
  rw [h, Option.getD_none]

theorem results_of_some (h : ctx.queryParams = some m) : ctx.results c calls = lookups m calls := by
  induction calls generalizing ctx m with
  | nil => rfl
  | cons call calls ih =>
    have hparams := params_of_some (c := c) h
    cases call with
    | get name =>
      simp only [results, query, getQuery, lookups, hparams]
      rw [ih (m := m)]
      simp only [ensureQueryParams, hparams]
    | set name value =>
      simp only [results, query, setQuery, lookups, hparams]
      rw [ih rfl]
    | remove name =>
      simp only [results, query, removeQuery, lookups, hparams]
      rw [ih rfl]
    | setString queryString =>
      have htail : results c { ctx with queryString } calls = lookups m calls := ih h
      simp only [results, query, lookups, htail]

/-- The first call that is about a parameter parses them. -/
theorem results_of_none (h : ctx.queryParams = none) (hcall : ∀ q, call ≠ .setString q) :
    ctx.results c (call :: calls) = lookups (parseQuery c ctx.queryString) (call :: calls) := by
  have hparams := params_of_none (c := c) h
  cases call with
  | get name =>
    simp only [results, query, getQuery, lookups, hparams]
    rw [results_of_some (m := parseQuery c ctx.queryString)]
    simp only [ensureQueryParams, hparams]
  | set name value =>
    simp only [results, query, setQuery, lookups, hparams]
    rw [results_of_some rfl]
  | remove name =>
    simp only [results, query, removeQuery, lookups, hparams]
    rw [results_of_some rfl]
  | setString queryString => exact absurd rfl (hcall queryString)

/-! ## Reads -/

theorem readsAreFree_of_some (h : ctx.queryParams = some m) : ctx.ReadsAreFree c calls := by
  intro marks hmarks
  rw [results_of_some h, results_of_some h]
  exact lookups_sift hmarks

/-- With its first call kept, a sequence that parses the parameters there returns what it would
with `m` exactly if it cannot tell `m` from what it parses. -/
theorem kept_iff_agree (calls : List QueryCall) (h : ctx.queryParams = none)
    (hcall : ∀ q, call ≠ .setString q)
    {r : Option String} {out : List (Option String)} (hout : lookups m (call :: calls) = r :: out) :
    (∀ marks, Deletes marks calls → ctx.results c (call :: sift marks calls) = r :: sift marks out) ↔
      Agree m (parseQuery c ctx.queryString) (call :: calls) := by
  rw [← lookups_eq_iff]
  have hsift : ∀ marks, Deletes marks calls → ctx.results c (call :: sift marks calls) =
      sift (true :: marks) (lookups (parseQuery c ctx.queryString) (call :: calls)) := by
    intro marks hmarks
    have hkept : Deletes (true :: marks) (call :: calls) :=
      deletes_cons.mpr ⟨fun hmark => (by cases hmark), hmarks⟩
    rw [results_of_none h hcall, ← lookups_sift hkept]
    rfl
  constructor
  · intro hkept
    have hall := hkept [] fun p hp => by cases hp
    rw [sift_nil, sift_nil, results_of_none h hcall] at hall
    rw [hout, hall]
  · intro hsame marks hmarks
    rw [hsift marks hmarks, ← hsame, hout]
    rfl

theorem alike_iff_settled (h : ctx.queryParams = none) :
    Alike (ctx.results c) (lookups m calls) calls ↔ Settled c m ctx.queryString calls := by
  induction calls generalizing ctx with
  | nil => exact iff_of_true (fun marks _ => by cases marks <;> rfl) trivial
  | cons call calls ih =>
    cases call with
    | get name =>
      have hcall : ∀ q, QueryCall.get name ≠ .setString q := nofun
      have hkept := kept_iff_agree (c := c) (m := m) calls h hcall rfl
      rw [lookups, alike_cons, hkept, Settled, ← ih h]
      simp only [isGet, true_implies]
    | set name value =>
      have hcall : ∀ q, QueryCall.set name value ≠ .setString q := nofun
      have hkept := kept_iff_agree (c := c) (m := m) calls h hcall rfl
      rw [lookups, alike_cons, hkept, Settled]
      simp only [isGet, Bool.false_eq_true, false_implies, and_true]
    | remove name =>
      have hcall : ∀ q, QueryCall.remove name ≠ .setString q := nofun
      have hkept := kept_iff_agree (c := c) (m := m) calls h hcall rfl
      rw [lookups, alike_cons, hkept, Settled]
      simp only [isGet, Bool.false_eq_true, false_implies, and_true]
    | setString queryString =>
      have hrest : Alike (results c { ctx with queryString }) (lookups m calls) calls ↔ _ := ih h
      rw [lookups, alike_cons, Settled, ← hrest]
      simp only [isGet, Bool.false_eq_true, false_implies, and_true, results, query, List.cons.injEq,
        true_and]
      rfl

theorem readsAreFree_iff_settled (h : ctx.queryParams = none) :
    ctx.ReadsAreFree c calls ↔ ReadsSettled c ctx.queryString calls := by
  show Alike (ctx.results c) (ctx.results c calls) calls ↔ _
  induction calls generalizing ctx with
  | nil => exact iff_of_true (fun marks _ => by cases marks <;> rfl) trivial
  | cons call calls ih =>
    -- whichever reads behind it are left out, the first call parses the same query string
    have hself (hcall : ∀ q, call ≠ .setString q) {r : Option String} {out : List (Option String)}
        (hout : lookups (parseQuery c ctx.queryString) (call :: calls) = r :: out) :=
      (kept_iff_agree (c := c) calls h hcall hout).mpr fun _ _ => rfl
    cases call with
    | get name =>
      have hcall : ∀ q, QueryCall.get name ≠ .setString q := nofun
      rw [results_of_none h hcall, lookups, alike_cons, and_iff_right (hself hcall rfl), ReadsSettled,
        ← alike_iff_settled h]
      simp only [isGet, true_implies]
    | set name value =>
      have hcall : ∀ q, QueryCall.set name value ≠ .setString q := nofun
      rw [results_of_none h hcall, lookups, alike_cons, and_iff_right (hself hcall rfl), ReadsSettled]
      simp only [isGet, Bool.false_eq_true, false_implies]
    | remove name =>
      have hcall : ∀ q, QueryCall.remove name ≠ .setString q := nofun
      rw [results_of_none h hcall, lookups, alike_cons, and_iff_right (hself hcall rfl), ReadsSettled]
      simp only [isGet, Bool.false_eq_true, false_implies]
    | setString queryString =>
      have hrest : Alike (results c { ctx with queryString })
          (results c { ctx with queryString } calls) calls ↔ _ := ih h
      rw [results, alike_cons, ReadsSettled, ← hrest]
      simp only [isGet, Bool.false_eq_true, false_implies, and_true, results, query, List.cons.injEq,
        true_and]
      rfl

/-! ## New query strings -/

theorem after_append (before rest : List QueryCall) :
    ctx.after c (before ++ rest) = (ctx.after c before).after c rest := List.foldl_append

theorem lookup_params_after {name : String} (h : ∀ call ∈ calls, call.Spares name) :
    ((ctx.after c calls).params c).lookup name = (ctx.params c).lookup name := by
  induction calls generalizing ctx with
  | nil => rfl
  | cons call calls ih =>
    obtain ⟨hcall, hrest⟩ := List.forall_mem_cons.mp h
    have htail : ((ctx.query c call).2.params c).lookup name = (ctx.params c).lookup name := by
      cases call with
      | get other => exact hcall.elim
      | set other value => exact AList.lookup_insert_ne (Ne.symm hcall)
      | remove other => exact AList.lookup_erase_ne (Ne.symm hcall)
      | setString queryString => exact hcall.elim
    exact (ih hrest).trans htail

theorem lookup_after_of_some (h : ctx.queryParams = some m) (name : String) :
    (ctx.after c calls).queryParams.map (·.lookup name) =
      some (value name (m.lookup name) calls) := by
  induction calls generalizing ctx m with
  | nil => exact congrArg (Option.map _) h
  | cons call calls ih =>
    have hparams := params_of_some (c := c) h
    change ((ctx.query c call).2.after c calls).queryParams.map _ = _
    cases call with
    | get other =>
      rw [ih (m := m) (congrArg some hparams)]
      rfl
    | set other w =>
      rw [ih (m := m.insert other w) (congrArg (fun m => some (m.insert other w)) hparams), value,
        Table.lookup_insert_eq]
    | remove other =>
      rw [ih (m := m.erase other) (congrArg (fun m => some (m.erase other)) hparams), value,
        Table.lookup_erase_eq]
    | setString queryString =>
      have hkept : (ctx.query c (.setString queryString)).2.queryParams = some m := h
      rw [ih hkept]
      rfl

/-- What has been parsed says of a parameter what the calls and the strings say. -/
theorem lookup_after (name : String) :
    (ctx.after c calls).queryParams.map (·.lookup name) =
      (ctx.parsedFrom c calls).map fun m => value name (m.lookup name) calls := by
  unfold parsedFrom
  cases hparsed : ctx.queryParams with
  | some m => exact lookup_after_of_some hparsed name
  | none =>
    rw [Option.none_or]
    induction calls generalizing ctx with
    | nil => exact congrArg (Option.map _) hparsed
    | cons call calls ih =>
      -- the first call about a parameter parses the string in force
      have hfirst : ∀ m, (ctx.query c call).2.queryParams = some m →
          (ctx.after c (call :: calls)).queryParams.map (·.lookup name) =
            some (value name (m.lookup name) calls) := fun m hm => lookup_after_of_some hm name
      have hparams := params_of_none (c := c) hparsed
      cases call with
      | get other => exact hfirst _ (congrArg some hparams)
      | set other w =>
        have hset : (ctx.query c (.set other w)).2.queryParams =
            some ((parseQuery c ctx.queryString).insert other w) := by
          rw [← hparams]
          rfl
        rw [hfirst _ hset, Table.lookup_insert_eq]
        rfl
      | remove other =>
        have hremoved : (ctx.query c (.remove other)).2.queryParams =
            some ((parseQuery c ctx.queryString).erase other) := by
          rw [← hparams]
          rfl
        rw [hfirst _ hremoved, Table.lookup_erase_eq]
        rfl
      | setString queryString => exact @ih { ctx with queryString } hparsed

theorem stringsTakeEffect_iff_agree : ctx.StringsTakeEffect c calls ↔ ctx.StringsAgree c calls := by
  unfold StringsTakeEffect StringsAgree
  refine forall₅_congr fun before queryString between name rest => ?_
  refine forall₂_congr fun _ hspares => ?_
  have hread : ((ctx.after c (before ++ .setString queryString :: between)).getQuery c name).1 =
      (MiddlewareContext.params c { ctx.after c before with queryString }).lookup name := by
    rw [after_append]
    exact lookup_params_after hspares
  have hvalue := @lookup_after c ctx before name
  rw [hread]
  cases hparsed : (ctx.after c before).queryParams with
  | none =>
    have hparams : MiddlewareContext.params c { ctx.after c before with queryString } =
        parseQuery c queryString := params_of_none hparsed
    rw [hparsed] at hvalue
    have hnone := Option.map_eq_none_iff.mp hvalue.symm
    rw [hparams, hnone]
    exact iff_of_true rfl nofun
  | some m =>
    have hparams : MiddlewareContext.params c { ctx.after c before with queryString } = m :=
      params_of_some hparsed
    rw [hparsed] at hvalue
    obtain ⟨m', hm', heq⟩ := Option.map_eq_some_iff.mp hvalue.symm
    rw [hparams, hm']
    have heq : m.lookup name = value name (m'.lookup name) before := heq.symm
    rw [heq]
    exact ⟨fun h m'' hm'' => Option.some.inj hm'' ▸ h, fun h => h m' rfl⟩

/-- Reading is free of effects, and new query strings are seen, exactly in orderly sequences. -/
theorem reads_free_iff_orderly (c : Crates) (ctx : MiddlewareContext) (calls : List QueryCall) :
    ctx.ReadsAreFree c calls ∧ ctx.StringsTakeEffect c calls ↔ ctx.Orderly c calls := by
  unfold Orderly
  rw [stringsTakeEffect_iff_agree]
  apply and_congr_left'
  cases h : ctx.queryParams with
  | none =>
    rw [readsAreFree_iff_settled h]
    simp only [true_implies]
  | some m => exact iff_of_true (readsAreFree_of_some h) nofun

/-- Queries of one parameter. -/
def oneParameter : Crates :=
  { asciiCase with formUrlencoded := fun queryString => match splitOnce '=' queryString.toList with
      | some (name, value) => [(String.ofList name, String.ofList value)]
      | none => [(queryString, "")] }

/-- A middleware that looks at a parameter, and one that then replaces the query string. -/
theorem read_hides_new_string :
    ¬ ∀ (c : Crates) (ctx : MiddlewareContext) (calls : List QueryCall),
      ctx.ReadsAreFree c calls ∧ ctx.StringsTakeEffect c calls := by
  intro h
  have hfree := (h oneParameter (.new "/" .get ∅ "page=1" none "")
    [.get "page", .setString "page=2", .get "page"]).1 [false] (by simp [Deletes, isGet])
  exact absurd hfree (by decide +kernel)

end MiddlewareContext

end Hypern.Middleware
