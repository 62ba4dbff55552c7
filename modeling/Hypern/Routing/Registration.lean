import Hypern.Lib.Run
import Hypern.Routing.Matchit
import Hypern.Routing.MatchitPath
import Hypern.Routing.Router

/-! The `Router` of `router.rs` with its trees as data: adding, extending and removing
routes, and how the trees and the list of routes stay in step. -/

namespace Hypern.Routing

open Http Lib

/-- The methods with a tree of their own. -/
inductive TreeMethod
  | get | post | put | delete | patch | head | options
  deriving DecidableEq

namespace TreeMethod

def asStr : TreeMethod → String
  | .get => "GET"
  | .post => "POST"
  | .put => "PUT"
  | .delete => "DELETE"
  | .patch => "PATCH"
  | .head => "HEAD"
  | .options => "OPTIONS"

def ofStr (s : String) : Option TreeMethod :=
  match s with
  | "GET" => some .get
  | "POST" => some .post
  | "PUT" => some .put
  | "DELETE" => some .delete
  | "PATCH" => some .patch
  | "HEAD" => some .head
  | "OPTIONS" => some .options
  | _ => none

theorem ofStr_eq_some {s : String} {m : TreeMethod} : ofStr s = some m ↔ s = m.asStr := by
  constructor
  · intro h
    unfold ofStr at h
    split at h <;> cases h <;> rfl
  · rintro rfl
    cases m <;> rfl

theorem asStr_injective : Function.Injective asStr := by
  intro m m' h
  exact Option.some.inj ((ofStr_eq_some.mpr rfl).symm.trans (ofStr_eq_some.mpr h))

end TreeMethod

/-- The crates and tables a router uses; upper case leaves the upper-case methods alone. -/
structure RouterCrates (T F : Type) extends Crates where
  matchit : Matchit T (Route F)
  toUppercase_asStr (m : TreeMethod) : toUppercase m.asStr = m.asStr

def trimStart : List Char → List Char := List.dropWhile (· == '/')

def trimEnd (cs : List Char) : List Char := (trimStart cs.reverse).reverse

def getFullPath (base route : String) : String :=
  let base := trimEnd base.toList
  let route := trimStart route.toList
  String.ofList <|
    if base.isEmpty then '/' :: route
    else if route.isEmpty then base
    else base ++ '/' :: route

structure RouteStore (T F : Type) where
  path : String
  routes : List (Route F)
  trees : TreeMethod → T

variable {T F : Type}

namespace Route

def isValid (env : RouterCrates T F) (r : Route F) : Bool :=
  r.path.toList.head? == some '/' && (TreeMethod.ofStr (env.toUppercase r.method)).isSome

/-- The test of `remove_route`. -/
def named (env : RouterCrates T F) (path method : String) (r : Route F) : Bool :=
  r.path == path && env.toUppercase r.method == env.toUppercase method

end Route

namespace RouteStore

variable (env : RouterCrates T F)

def new (path : String) : RouteStore T F := ⟨path, [], fun _ => env.matchit.new⟩

/-- The pattern under which a tree holds a route. -/
def pattern (s : RouteStore T F) (r : Route F) : String :=
  convertToMatchitPath (getFullPath s.path r.path)

def addRoute (s : RouteStore T F) (r : Route F) : Except String Unit × RouteStore T F :=
  if !r.isValid env then (.error "Invalid route configuration", s)
  else
    let method := env.toUppercase r.method
    match TreeMethod.ofStr method with
    | none => (.error ("Unknown HTTP method: " ++ method), s)
    | some m =>
      match env.matchit.insert (s.trees m) (s.pattern r) r with
      | (.error e, t) =>
        (.error ("Failed to add route: " ++ e), { s with trees := Function.update s.trees m t })
      | (.ok (), t) =>
        (.ok (), { s with routes := s.routes ++ [r], trees := Function.update s.trees m t })

/-- The errors of single routes are dropped. -/
def extendRoute (s : RouteStore T F) (rs : List (Route F)) : RouteStore T F :=
  rs.foldl (fun s r => (s.addRoute env r).2) s

def removeRoute (s : RouteStore T F) (path method : String) : Bool × RouteStore T F :=
  match s.routes.findIdx? (·.named env path method) with
  | some index => (true, { s with routes := s.routes.eraseIdx index })
  | none => (false, s)

/-- The router as `find_matching_route` reads it. -/
def view (s : RouteStore T F) : Router F where
  getRouter := env.matchit.lookup (s.trees .get)
  postRouter := env.matchit.lookup (s.trees .post)
  putRouter := env.matchit.lookup (s.trees .put)
  deleteRouter := env.matchit.lookup (s.trees .delete)
  patchRouter := env.matchit.lookup (s.trees .patch)
  headRouter := env.matchit.lookup (s.trees .head)
  optionsRouter := env.matchit.lookup (s.trees .options)

def findMatchingRoute (s : RouteStore T F) (path method : String) : Option (Route F × StrMap) :=
  (s.view env).findMatchingRoute env.toCrates path method

def stored (s : RouteStore T F) (m : TreeMethod) : List (Route F) :=
  (env.matchit.entries (s.trees m)).map (·.2)

end RouteStore

inductive RouterCall (F : Type)
  | addRoute (r : Route F)
  | extendRoute (rs : List (Route F))
  | removeRoute (path method : String)

def RouterCall.apply (env : RouterCrates T F) (s : RouteStore T F) :
    RouterCall F → Option (RouteStore T F)
  | .addRoute r => some (s.addRoute env r).2
  | .extendRoute rs => some (s.extendRoute env rs)
  | .removeRoute path method => some (s.removeRoute env path method).2

/-! ## What adding a route can do -/

namespace RouteStore

variable {env : RouterCrates T F} {s : RouteStore T F} {r : Route F}

theorem tree_view (s : RouteStore T F) (method : String) :
    (s.view env).tree method = (TreeMethod.ofStr method).map fun m => env.matchit.lookup (s.trees m) := by
  cases hm : TreeMethod.ofStr method with
  | some m =>
    obtain rfl := TreeMethod.ofStr_eq_some.mp hm
    cases m <;> rfl
  | none =>
    unfold Router.tree
    split <;> first | rfl | cases hm

/-- Lower-case spellings of a method are looked up under the upper-case one. -/
theorem findMatchingRoute_eq (s : RouteStore T F) (path method : String) :
    s.findMatchingRoute env path method =
      (TreeMethod.ofStr (env.toUppercase method)).bind fun m => env.matchit.lookup (s.trees m) path := by
  unfold findMatchingRoute Router.findMatchingRoute
  rw [tree_view]
  cases hm : TreeMethod.ofStr method with
  | none =>
    rw [Option.map_none, tree_view]
    cases TreeMethod.ofStr (env.toUppercase method) <;> rfl
  | some m =>
    obtain rfl := TreeMethod.ofStr_eq_some.mp hm
    rw [env.toUppercase_asStr, TreeMethod.ofStr_eq_some.mpr rfl]
    rfl

/-- The route went to the end of the list and into the tree of its method. -/
structure Added (env : RouterCrates T F) (s : RouteStore T F) (r : Route F) (s' : RouteStore T F) :
    Prop where
  path : s'.path = s.path
  routes : s'.routes = s.routes ++ [r]
  method : ∃ m : TreeMethod, env.toUppercase r.method = m.asStr
  mem_entries (m : TreeMethod) (e : String × Route F) :
    e ∈ env.matchit.entries (s'.trees m) ↔ e ∈ env.matchit.entries (s.trees m) ∨
      env.toUppercase r.method = m.asStr ∧ e = (s.pattern r, r)
  wellFormed : WellFormed (s.pattern r)
  fresh (m : TreeMethod) (hm : env.toUppercase r.method = m.asStr) :
    ∀ e ∈ env.matchit.entries (s.trees m), e.1 ≠ s.pattern r

theorem added_insert {m : TreeMethod} (hm : env.toUppercase r.method = m.asStr) {t : T}
    (hins : env.matchit.insert (s.trees m) (s.pattern r) r = (.ok (), t)) :
    Added env s r { s with routes := s.routes ++ [r], trees := Function.update s.trees m t } := by
  have hok : (env.matchit.insert (s.trees m) (s.pattern r) r).1 = .ok () := by rw [hins]
  refine ⟨rfl, rfl, ⟨m, hm⟩, fun m' e => ?_, env.matchit.insert_wellFormed hok, fun m' hm' => ?_⟩
  · dsimp only
    by_cases hmm : m' = m
    · subst hmm
      have hmem := env.matchit.mem_entries_insert hok (e := e)
      rw [hins] at hmem
      rw [Function.update_self, hmem]
      simp [hm]
    · rw [Function.update_of_ne hmm]
      have hne : env.toUppercase r.method ≠ m'.asStr := fun h =>
        hmm (TreeMethod.asStr_injective (h.symm.trans hm))
      simp [hne]
  · obtain rfl := TreeMethod.asStr_injective (hm'.symm.trans hm)
    exact env.matchit.insert_fresh hok

theorem addRoute_cases (env : RouterCrates T F) (s : RouteStore T F) (r : Route F) :
    (∃ e, s.addRoute env r = (.error e, s)) ∨
    ∃ s', s.addRoute env r = (.ok (), s') ∧ Added env s r s' := by
  unfold addRoute
  split_ifs with hvalid
  · exact .inl ⟨_, rfl⟩
  · dsimp only
    cases hm : TreeMethod.ofStr (env.toUppercase r.method) with
    | none => exact .inl ⟨_, rfl⟩
    | some m =>
      rcases hins : env.matchit.insert (s.trees m) (s.pattern r) r with ⟨e | ⟨⟨⟩⟩, t⟩
      · have ht : t = s.trees m := by
          have h := env.matchit.insert_error (congrArg Prod.fst hins)
          rwa [hins] at h
        refine .inl ⟨"Failed to add route: " ++ e, ?_⟩
        dsimp only
        rw [hins, ht]
        dsimp only
        rw [Function.update_eq_self]
      · refine .inr ⟨_, ?_, added_insert (TreeMethod.ofStr_eq_some.mp hm) hins⟩
        dsimp only
        rw [hins]

theorem addRoute_error {e : String} (h : (s.addRoute env r).1 = .error e) :
    (s.addRoute env r).2 = s := by
  rcases addRoute_cases env s r with ⟨e', he⟩ | ⟨s', hok, -⟩
  · rw [he]
  · rw [hok] at h
    cases h

theorem removeRoute_cases (env : RouterCrates T F) (s : RouteStore T F) (path method : String) :
    (s.removeRoute env path method = (false, s) ∧ ∀ r ∈ s.routes, r.named env path method = false) ∨
    ∃ index r, s.routes[index]? = some r ∧ r.named env path method = true ∧
      s.removeRoute env path method = (true, { s with routes := s.routes.eraseIdx index }) := by
  unfold removeRoute
  cases hidx : s.routes.findIdx? (·.named env path method) with
  | none => exact .inl ⟨rfl, List.findIdx?_eq_none_iff.mp hidx⟩
  | some index =>
    obtain ⟨hlt, hnamed, -⟩ := List.findIdx?_eq_some_iff_getElem.mp hidx
    exact .inr ⟨index, s.routes[index], List.getElem?_eq_getElem hlt, hnamed, rfl⟩

/-! ## What every call preserves -/

/-- What single additions preserve, adding a list of routes preserves. -/
theorem extendRoute_invariant {P : RouteStore T F → Prop}
    (hadd : ∀ s r, P s → P (s.addRoute env r).2) (rs : List (Route F)) (h : P s) :
    P (s.extendRoute env rs) := by
  unfold RouteStore.extendRoute
  induction rs generalizing s with
  | nil => exact h
  | cons r rs ih => exact ih (hadd s r h)

theorem apply_invariant {P : RouteStore T F → Prop} (hadd : ∀ s r, P s → P (s.addRoute env r).2)
    (hremove : ∀ s path method, P s → P (s.removeRoute env path method).2) (h : P s)
    {call : RouterCall F} {s' : RouteStore T F} (hcall : call.apply env s = some s') : P s' := by
  cases call with
  | addRoute r =>
    cases hcall
    exact hadd s r h
  | extendRoute rs =>
    cases hcall
    exact extendRoute_invariant hadd rs h
  | removeRoute path method =>
    cases hcall
    exact hremove s path method h

/-- The trees hold the listed routes, perhaps among others, each under its own pattern and
method, and no two listed routes have the same path and method. -/
structure Kept (env : RouterCrates T F) (s : RouteStore T F) : Prop where
  entries : ∀ m, ∀ e ∈ env.matchit.entries (s.trees m),
    e.1 = s.pattern e.2 ∧ env.toUppercase e.2.method = m.asStr ∧ WellFormed e.1
  method : ∀ r ∈ s.routes, ∃ m : TreeMethod, env.toUppercase r.method = m.asStr
  listed : ∀ r ∈ s.routes, ∀ m : TreeMethod, env.toUppercase r.method = m.asStr →
    (s.pattern r, r) ∈ env.matchit.entries (s.trees m)
  distinct : s.routes.Pairwise fun r r' =>
    ¬ (r.path = r'.path ∧ env.toUppercase r.method = env.toUppercase r'.method)

theorem notMem_entries_new (path : String) (m : TreeMethod) (e : String × Route F) :
    e ∉ env.matchit.entries ((new env path).trees m) := by
  rw [new, env.matchit.entries_new]
  exact List.not_mem_nil

theorem kept_new (path : String) : Kept env (new env path) where
  entries m e he := absurd he (notMem_entries_new path m e)
  method := nofun
  listed := nofun
  distinct := .nil

theorem Kept.added (h : Kept env s) {s' : RouteStore T F} (hadd : Added env s r s') :
    Kept env s' := by
  have hpattern (r : Route F) : s'.pattern r = s.pattern r := by rw [pattern, hadd.path, pattern]
  refine ⟨fun m e he => ?_, fun r' hr' => ?_, fun r' hr' m hm => ?_, ?_⟩
  · rw [hpattern]
    rcases (hadd.mem_entries m e).mp he with he | ⟨hm, rfl⟩
    · exact h.entries m e he
    · exact ⟨rfl, hm, hadd.wellFormed⟩
  · rw [hadd.routes, List.mem_append, List.mem_singleton] at hr'
    rcases hr' with hr' | rfl
    · exact h.method r' hr'
    · exact hadd.method
  · rw [hpattern, hadd.mem_entries]
    rw [hadd.routes, List.mem_append, List.mem_singleton] at hr'
    rcases hr' with hr' | rfl
    · exact .inl (h.listed r' hr' m hm)
    · exact .inr ⟨hm, rfl⟩
  · rw [hadd.routes, List.pairwise_append]
    refine ⟨h.distinct, List.pairwise_singleton _ _, fun a ha b hb hsame => ?_⟩
    obtain rfl := List.mem_singleton.mp hb
    -- the tree would hold a pattern equal to the new one, and `insert` would have failed
    obtain ⟨m, hm⟩ := hadd.method
    have hentry := h.listed a ha m (hsame.2.trans hm)
    refine hadd.fresh m hm _ hentry ?_
    rw [pattern, pattern, hsame.1]

theorem Kept.addRoute (h : Kept env s) (r : Route F) : Kept env (s.addRoute env r).2 := by
  rcases addRoute_cases env s r with ⟨e, he⟩ | ⟨s', hok, hadd⟩
  · rw [he]
    exact h
  · rw [hok]
    exact h.added hadd

theorem Kept.removeRoute (h : Kept env s) (path method : String) :
    Kept env (s.removeRoute env path method).2 := by
  rcases removeRoute_cases env s path method with ⟨heq, -⟩ | ⟨index, r, -, -, heq⟩
  · rw [heq]
    exact h
  rw [heq]
  have hsub : ∀ r ∈ s.routes.eraseIdx index, r ∈ s.routes := fun r hr => List.mem_of_mem_eraseIdx hr
  exact ⟨h.entries, fun r hr => h.method r (hsub r hr), fun r hr => h.listed r (hsub r hr),
    h.distinct.sublist (List.eraseIdx_sublist _ _)⟩

theorem Kept.apply (h : Kept env s) {call : RouterCall F} {s' : RouteStore T F}
    (hcall : call.apply env s = some s') : Kept env s' :=
  apply_invariant (fun _ r h => h.addRoute r) (fun _ path method h => h.removeRoute path method) h
    hcall

theorem Kept.mem_stored (h : Kept env s) {m : TreeMethod} (hr : r ∈ s.routes)
    (hm : env.toUppercase r.method = m.asStr) : r ∈ s.stored env m :=
  List.mem_map.mpr ⟨_, h.listed r hr m hm, rfl⟩

theorem Kept.not_mem_eraseIdx (h : Kept env s) {index : Nat} (hr : s.routes[index]? = some r) :
    r ∉ s.routes.eraseIdx index := by
  have hnodup : s.routes.Nodup := h.distinct.imp fun hne heq => hne ⟨by rw [heq], by rw [heq]⟩
  intro hmem
  obtain ⟨j, hj, hget⟩ := List.mem_eraseIdx_iff_getElem?.mp hmem
  obtain ⟨hlt, -⟩ := List.getElem?_eq_some_iff.mp hget
  exact hj ((List.getElem?_inj hlt hnodup).mp (hget.trans hr.symm))

/-! ## Trees and list in step -/

/-- The trees hold the listed routes and no others; a lookup returns listed routes only and
answers wherever the pattern of a listed route of the method matches. -/
structure Agrees (env : RouterCrates T F) (s : RouteStore T F) : Prop where
  trees : ∀ m r, r ∈ s.stored env m ↔ r ∈ s.routes ∧ env.toUppercase r.method = m.asStr
  found : ∀ path method r params,
    s.findMatchingRoute env path method = some (r, params) → r ∈ s.routes
  missed : ∀ r ∈ s.routes, ∀ path, Matches (s.pattern r) path →
    s.findMatchingRoute env path r.method ≠ none

theorem stored_of_found {path method : String} {params : StrMap}
    (h : s.findMatchingRoute env path method = some (r, params)) :
    ∃ m : TreeMethod, env.toUppercase method = m.asStr ∧
      ∃ p, (p, r) ∈ env.matchit.entries (s.trees m) ∧ Matches p path := by
  rw [findMatchingRoute_eq] at h
  obtain ⟨m, hm, hlookup⟩ := Option.bind_eq_some_iff.mp h
  obtain ⟨p, hp, hmatch⟩ := env.matchit.lookup_sound hlookup
  exact ⟨m, TreeMethod.ofStr_eq_some.mp hm, p, hp, hmatch⟩

/-- The tree of its method finds a route for a path that its pattern matches, unless a pattern of
the tree leads the search behind a parameter. -/
theorem Kept.found_of_matches (h : Kept env s) (hcomplete : env.matchit.Complete) (hr : r ∈ s.routes)
    {path method : String} (hmethod : env.toUppercase method = env.toUppercase r.method)
    (hsuffix : ∀ m : TreeMethod, env.toUppercase r.method = m.asStr →
      ∀ e ∈ env.matchit.entries (s.trees m), ¬ EntersSuffix e.1 path)
    (hmatch : Matches (s.pattern r) path) : s.findMatchingRoute env path method ≠ none := by
  obtain ⟨m, hm⟩ := h.method r hr
  rw [findMatchingRoute_eq, hmethod, TreeMethod.ofStr_eq_some.mpr hm]
  exact hcomplete (s.trees m) path (hsuffix m hm) _ (h.listed r hr m hm) hmatch

/-- The trees hold listed routes only. -/
def Listed (env : RouterCrates T F) (s : RouteStore T F) : Prop :=
  ∀ m, ∀ e ∈ env.matchit.entries (s.trees m), e.2 ∈ s.routes

/-- No pattern of a tree has text behind a parameter. -/
def SuffixFreeTrees (env : RouterCrates T F) (s : RouteStore T F) : Prop :=
  ∀ m, ∀ e ∈ env.matchit.entries (s.trees m), SuffixFree e.1

theorem Agrees.listed (h : Agrees env s) : Listed env s := fun m e he =>
  ((h.trees m e.2).mp (List.mem_map_of_mem he)).1

theorem Listed.found (h : Listed env s) {path method : String} {params : StrMap}
    (hfind : s.findMatchingRoute env path method = some (r, params)) : r ∈ s.routes := by
  obtain ⟨m, -, p, hp, -⟩ := stored_of_found hfind
  exact h m _ hp

theorem Kept.agrees (h : Kept env s) (hcomplete : env.matchit.Complete) (hlisted : Listed env s)
    (hfree : SuffixFreeTrees env s) : Agrees env s := by
  refine ⟨fun m r => ⟨fun hr => ?_, fun hr => h.mem_stored hr.1 hr.2⟩,
    fun path method r params hfind => hlisted.found hfind,
    fun r hr path hmatch => h.found_of_matches hcomplete hr rfl
      (fun m _ e he => (hfree m e he).not_entersSuffix path) hmatch⟩
  obtain ⟨e, he, rfl⟩ := List.mem_map.mp hr
  exact ⟨hlisted m e he, (h.entries m e he).2.1⟩

theorem listed_new (path : String) : Listed env (new env path) := fun m e he =>
  absurd he (notMem_entries_new path m e)

theorem suffixFreeTrees_new (path : String) : SuffixFreeTrees env (new env path) := fun m e he =>
  absurd he (notMem_entries_new path m e)

theorem Listed.addRoute (h : Listed env s) (r : Route F) : Listed env (s.addRoute env r).2 := by
  rcases addRoute_cases env s r with ⟨e, he⟩ | ⟨s', hok, hadd⟩
  · rw [he]
    exact h
  · rw [hok]
    intro m e he
    rw [hadd.routes, List.mem_append, List.mem_singleton]
    rcases (hadd.mem_entries m e).mp he with he | ⟨-, rfl⟩
    · exact .inl (h m e he)
    · exact .inr rfl

theorem Listed.extendRoute (h : Listed env s) (rs : List (Route F)) :
    Listed env (s.extendRoute env rs) :=
  extendRoute_invariant (fun _ r h => h.addRoute r) rs h

/-- The prefix of the router never changes. -/
theorem addRoute_path (s : RouteStore T F) (r : Route F) : (s.addRoute env r).2.path = s.path := by
  rcases addRoute_cases env s r with ⟨e, he⟩ | ⟨s', hok, hadd⟩
  · rw [he]
  · rw [hok]
    exact hadd.path

theorem SuffixFreeTrees.addRoute (h : SuffixFreeTrees env s) (hr : SuffixFree (s.pattern r)) :
    SuffixFreeTrees env (s.addRoute env r).2 := by
  rcases addRoute_cases env s r with ⟨e, he⟩ | ⟨s', hok, hadd⟩
  · rw [he]
    exact h
  · rw [hok]
    intro m e he
    rcases (hadd.mem_entries m e).mp he with he | ⟨-, rfl⟩
    · exact h m e he
    · exact hr

theorem SuffixFreeTrees.extendRoute (h : SuffixFreeTrees env s) (rs : List (Route F))
    (hrs : ∀ r ∈ rs, SuffixFree (s.pattern r)) : SuffixFreeTrees env (s.extendRoute env rs) := by
  induction rs generalizing s with
  | nil => exact h
  | cons r rs ih =>
    rw [List.forall_mem_cons] at hrs
    refine ih (h.addRoute hrs.1) fun r' hr' => ?_
    rw [pattern, addRoute_path]
    exact hrs.2 r' hr'

end RouteStore

/-- The call takes no route off the list. -/
def RouterCall.RemovesNothing (env : RouterCrates T F) (s : RouteStore T F) :
    RouterCall F → Prop
  | .removeRoute path method => ∀ r ∈ s.routes, r.named env path method = false
  | _ => True

/-- No route of the call has text behind a parameter in its segment. -/
def RouterCall.AddsSuffixFree (s : RouteStore T F) : RouterCall F → Prop
  | .addRoute r => SuffixFree (s.pattern r)
  | .extendRoute rs => ∀ r ∈ rs, SuffixFree (s.pattern r)
  | .removeRoute _ _ => True

namespace RouteStore

variable {env : RouterCrates T F} {s : RouteStore T F}

theorem listed_apply_iff (hs : Kept env s) (h : Listed env s) {call : RouterCall F}
    {s' : RouteStore T F} (hcall : call.apply env s = some s') :
    Listed env s' ↔ call.RemovesNothing env s := by
  cases call with
  | addRoute r =>
    cases hcall
    exact iff_of_true (h.addRoute r) trivial
  | extendRoute rs =>
    cases hcall
    exact iff_of_true (h.extendRoute rs) trivial
  | removeRoute path method =>
    cases hcall
    rcases removeRoute_cases env s path method with
      ⟨heq, hnone⟩ | ⟨index, r, hget, hnamed, heq⟩
    · rw [heq]
      exact iff_of_true h hnone
    · have hr : r ∈ s.routes := List.mem_of_getElem? hget
      refine iff_of_false (fun hlisted => ?_) (fun hnone => ?_)
      · -- the tree of its method still holds the route that left the list
        obtain ⟨m, hm⟩ := hs.method r hr
        rw [heq] at hlisted
        exact hs.not_mem_eraseIdx hget (hlisted m _ (hs.listed r hr m hm))
      · rw [hnone r hr] at hnamed
        cases hnamed

theorem SuffixFreeTrees.apply (h : SuffixFreeTrees env s) {call : RouterCall F}
    (hadds : call.AddsSuffixFree s) {s' : RouteStore T F} (hcall : call.apply env s = some s') :
    SuffixFreeTrees env s' := by
  cases call with
  | addRoute r =>
    cases hcall
    exact h.addRoute hadds
  | extendRoute rs =>
    cases hcall
    exact h.extendRoute rs hadds
  | removeRoute path method =>
    cases hcall
    rcases removeRoute_cases env s path method with ⟨heq, -⟩ | ⟨index, r, -, -, heq⟩
    · rw [heq]
      exact h
    · rw [heq]
      exact h

theorem listed_of_removesNothing {path : String} {calls : List (RouterCall F)}
    (h : Along (RouterCall.apply env) (RouterCall.RemovesNothing env) (new env path) calls)
    (hexec : exec (RouterCall.apply env) (new env path) calls = some s) :
    Kept env s ∧ Listed env s := by
  refine Along.invariant (fun s => Kept env s ∧ Listed env s) ?_ h
    ⟨kept_new path, listed_new path⟩ hexec
  rintro s call t ⟨hs, hlisted⟩ hnothing hcall
  exact ⟨hs.apply hcall, (listed_apply_iff hs hlisted hcall).mpr hnothing⟩

/-- The trees hold listed routes only as long as no route is taken off the list. -/
theorem always_listed_iff (path : String) (calls : List (RouterCall F)) :
    Always (RouterCall.apply env) (Listed env) (new env path) calls ↔
      Along (RouterCall.apply env) (RouterCall.RemovesNothing env) (new env path) calls := by
  rw [always_iff_along (Kept env) (listed_new path) (kept_new path) (fun _ _ _ hs => hs.apply)
    (fun _ _ _ hs h => listed_apply_iff hs h)]
  refine along_enabled_iff fun s call hnot => ?_
  cases call with
  | addRoute r => exact ⟨_, rfl⟩
  | extendRoute rs => exact ⟨_, rfl⟩
  | removeRoute path method => exact ⟨_, rfl⟩

/-- In a run whose calls remove nothing, and add no route with text behind a parameter, trees and
list agree; in a run in which they agree no call removes a route. -/
theorem agrees_iff_removesNothing (env : RouterCrates T F) (hcomplete : env.matchit.Complete)
    (path : String) (calls : List (RouterCall F)) :
    (Along (RouterCall.apply env) (fun s call => call.RemovesNothing env s ∧ call.AddsSuffixFree s)
        (new env path) calls →
      Always (RouterCall.apply env) (Agrees env) (new env path) calls) ∧
    (Always (RouterCall.apply env) (Agrees env) (new env path) calls →
      Along (RouterCall.apply env) (RouterCall.RemovesNothing env) (new env path) calls) ∧
    ∀ (s : RouteStore T F) (r : Route F) (e : String),
      (s.addRoute env r).1 = .error e → (s.addRoute env r).2 = s := by
  refine ⟨fun h => ?_, fun h => ?_, fun s r e => addRoute_error⟩
  · have hstep : ∀ (s : RouteStore T F) (call : RouterCall F) (t : RouteStore T F),
        Kept env s ∧ Listed env s ∧ SuffixFreeTrees env s →
          call.RemovesNothing env s ∧ call.AddsSuffixFree s → call.apply env s = some t →
            Kept env t ∧ Listed env t ∧ SuffixFreeTrees env t := by
      rintro s call t ⟨hs, hlisted, hfree⟩ ⟨hnothing, hadds⟩ hcall
      exact ⟨hs.apply hcall, (listed_apply_iff hs hlisted hcall).mpr hnothing,
        hfree.apply hadds hcall⟩
    exact h.always hstep (fun s hs => hs.1.agrees hcomplete hs.2.1 hs.2.2)
      ⟨kept_new path, listed_new path, suffixFreeTrees_new path⟩
  · exact (always_listed_iff path calls).mp (h.mono fun _ hagrees => hagrees.listed)

/-- ASCII upper case and the table of patterns. -/
def asciiCrates (F : Type) : RouterCrates (List (String × Route F)) F where
  toLowercase := fun s => String.ofList (s.toList.map Char.toLower)
  toUppercase := fun s => String.ofList (s.toList.map Char.toUpper)
  percentDecodeStr := percentDecode
  formUrlencoded := fun _ => []
  headerName := some
  headerValue := some
  matchit := tableMatchit (Route F)
  toUppercase_asStr m := by cases m <;> decide

def getUsers : Route Unit := ⟨"/users", (), "GET"⟩

/-- A route is added, and a call to remove another one removes nothing. -/
theorem users_agree :
    Always (RouterCall.apply (asciiCrates Unit)) (Agrees (asciiCrates Unit))
      (new (asciiCrates Unit) "") [.addRoute getUsers, .removeRoute "/users" "POST"] := by
  refine (agrees_iff_removesNothing (asciiCrates Unit) (complete_tableMatchit _) "" _).1
    ⟨⟨trivial, fun ts hts => ?_⟩, fun s hs => ⟨⟨?_, trivial⟩, fun _ _ => trivial⟩⟩
  · cases hts
    decide
  · cases hs
    intro r hr
    obtain rfl := List.mem_singleton.mp hr
    decide

theorem removed_route_found :
    ¬ Always (RouterCall.apply (asciiCrates Unit)) (Agrees (asciiCrates Unit))
      (new (asciiCrates Unit) "") [.addRoute getUsers, .removeRoute "/users" "GET"] := by
  intro h
  have hlisted := (h.final rfl).found "/users" "GET" getUsers ∅ rfl
  cases hlisted

end RouteStore

end Hypern.Routing
