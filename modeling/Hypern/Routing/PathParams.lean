import Hypern.Http.PercentEncoding
import Hypern.Routing.Lookup

/-! A route with one parameter: what the parameter is bound to when a value takes its place in the
path of a request. -/

namespace Hypern.Routing

open Http Lib

/-! ## Paths with one parameter -/

/-- The path of a route with one parameter, which takes up a whole segment among literal ones. -/
structure ParamPath where
  pre : String
  name : String
  post : String
  slash : pre.toList.getLast? = some '/'
  boundary : Boundary post.toList
  literal : ∀ c ∈ pre.toList ++ post.toList, c ≠ ':' ∧ c ≠ '*' ∧ c ≠ '\x7b' ∧ c ≠ '\x7d'
  name_ne : name.toList ≠ []
  nameChars : ∀ c ∈ name.toList,
    c ≠ '/' ∧ c ≠ '-' ∧ c ≠ '.' ∧ c ≠ '*' ∧ c ≠ '\x7b' ∧ c ≠ '\x7d'

namespace ParamPath

variable (p : ParamPath)

def path : String := p.pre ++ ":" ++ p.name ++ p.post

/-- The same in the syntax of `matchit`. -/
def pattern : String := p.pre ++ "\x7b" ++ p.name ++ "\x7d" ++ p.post

/-- The path with a value in the place of the parameter. -/
def fill (value : String) : String := p.pre ++ value ++ p.post

/-- The parameters when the value is bound. -/
def bound (value : String) : StrMap := (∅ : StrMap).insert p.name value

/-- Decoding leaves the literal segments as they are. -/
def Unescaped : Prop := Http.Unescaped p.pre ∧ Http.Unescaped p.post

end ParamPath

/-- What the documentation of `matchit` says beyond `Matchit`: the pattern that is found is more
specific than all others that match, and its parameter is bound to what the path has in its
place. As for `Matchit.Complete`, no pattern leads the search behind a parameter. -/
structure BindsParams {T V : Type} (matchit : Matchit T V) (moreSpecific : String → String → Prop) :
    Prop where
  found {t : T} {path : String} {r : V × StrMap} (h : matchit.lookup t path = some r)
    (hsuffix : ∀ e ∈ matchit.entries t, ¬ EntersSuffix e.1 path) :
    ∃ p, (p, r.1) ∈ matchit.entries t ∧ Matches p path ∧
      (∀ e ∈ matchit.entries t, Matches e.1 path → e.1 ≠ p → moreSpecific p e.1) ∧
      ∀ q : ParamPath, q.pattern = p → ∃ value, path = q.fill value ∧ r.2 = q.bound value

namespace ParamPath

variable {p : ParamPath}

theorem convertFrom_static {part rest : List Char} (hpart : ∀ c ∈ part, c ≠ ':' ∧ c ≠ '*') :
    convertFrom (part ++ rest) .literal = part ++ convertFrom rest .literal := by
  induction part with
  | nil => rfl
  | cons c part ih =>
    obtain ⟨⟨hcolon, hstar⟩, htail⟩ := List.forall_mem_cons.mp hpart
    rw [List.cons_append, convertFrom, if_neg hcolon, if_neg hstar, ih htail]
    rfl

theorem toList_path (p : ParamPath) :
    p.path.toList = p.pre.toList ++ ((':' :: p.name.toList) ++ p.post.toList) := by
  unfold path
  simp only [String.toList_append, List.append_assoc]
  rfl

theorem convertToMatchitPath_path (p : ParamPath) : convertToMatchitPath p.path = p.pattern := by
  have hpre : ∀ c ∈ p.pre.toList, c ≠ ':' ∧ c ≠ '*' := fun c hc =>
    ⟨(p.literal c (List.mem_append_left _ hc)).1, (p.literal c (List.mem_append_left _ hc)).2.1⟩
  have hpost : ∀ c ∈ p.post.toList, c ≠ ':' ∧ c ≠ '*' := fun c hc =>
    ⟨(p.literal c (List.mem_append_right _ hc)).1, (p.literal c (List.mem_append_right _ hc)).2.1⟩
  have hname : ∀ c ∈ p.name.toList, c ≠ '/' ∧ c ≠ '-' ∧ c ≠ '.' := fun c hc =>
    ⟨(p.nameChars c hc).1, (p.nameChars c hc).2.1, (p.nameChars c hc).2.2.1⟩
  have hend := @convertFrom_static _ [] hpost
  rw [List.append_nil] at hend
  refine String.toList_inj.mp ?_
  rw [convertToMatchitPath, String.toList_ofList, toList_path, convertFrom_static hpre,
    List.cons_append, convertFrom, if_pos rfl, convertFrom_name p.boundary hname, hend, pattern]
  simp only [String.toList_append, List.append_assoc, convertFrom, List.append_nil]
  rfl

theorem plainPart_name (p : ParamPath) : plainPart (':' :: p.name.toList) = true := by
  have hchars : p.name.toList.all
      (fun c => !(['-', '.', '*', '\x7b', '\x7d'].contains c)) = true := by
    refine List.all_eq_true.mpr fun c hc => ?_
    obtain ⟨-, hdash, hdot, hstar, hopen, hclose⟩ := p.nameChars c hc
    simp [hdash, hdot, hstar, hopen, hclose]
  have hne : (!p.name.toList.isEmpty) = true := by simpa using p.name_ne
  unfold plainPart
  exact Bool.and_eq_true_iff.mpr ⟨hne, hchars⟩

theorem tokens_pattern (p : ParamPath) :
    tokens p.pattern = some (p.pre.toList.map .lit ++ .param :: p.post.toList.map .lit) := by
  have hslash : '/' ∉ ':' :: p.name.toList := by
    rw [List.mem_cons, not_or]
    exact ⟨by decide, fun hc => (p.nameChars _ hc).1 rfl⟩
  have hend := @readTokens_static p.post.toList [] fun c hc =>
    p.literal c (List.mem_append_right _ hc)
  rw [List.append_nil] at hend
  rw [tokens, ← convertToMatchitPath_path, convertToMatchitPath, String.toList_ofList, toList_path,
    readTokens_static fun c hc => p.literal c (List.mem_append_left _ hc),
    readTokens_part p.plainPart_name hslash p.boundary, hend]
  have hparam : partTokens (':' :: p.name.toList) = [.param] := if_pos rfl
  rw [hparam]
  simp [convertFrom, readTokens]

theorem toList_fill (p : ParamPath) (value : String) :
    (p.fill value).toList = p.pre.toList ++ (value.toList ++ p.post.toList) := by
  unfold fill
  simp only [String.toList_append, List.append_assoc]

theorem fill_injective (p : ParamPath) : Function.Injective p.fill := by
  intro value value' h
  have hlist := congrArg String.toList h
  rw [toList_fill, toList_fill] at hlist
  exact String.toList_inj.mp (List.append_cancel_right (List.append_cancel_left hlist))

/-- The paths a parameter matches have a value within the segment in its place. -/
theorem matches_iff {path : String} :
    Matches p.pattern path ↔ ∃ value, value ≠ "" ∧ '/' ∉ value.toList ∧ path = p.fill value := by
  have hlits : ∀ cs, matchTokens (p.post.toList.map .lit) cs = true ↔ cs = p.post.toList := by
    intro cs
    have h := @matchTokens_lits p.post.toList [] cs
    rw [List.append_nil] at h
    rw [h]
    constructor
    · rintro ⟨rest, rfl, hrest⟩
      rw [List.isEmpty_iff.mp hrest, List.append_nil]
    · rintro rfl
      exact ⟨[], (List.append_nil _).symm, rfl⟩
  unfold Matches
  rw [tokens_pattern]
  simp only [Option.some.injEq, exists_eq_left', matchTokens_lits, matchTokens_param, hlits]
  constructor
  · rintro ⟨rest, hpath, w, -, hw, hslash, rfl, rfl⟩
    refine ⟨String.ofList w, ?_, by rwa [String.toList_ofList], ?_⟩
    · exact fun hnil => hw (by rw [← String.toList_ofList (l := w), hnil]; rfl)
    · refine String.toList_inj.mp ?_
      rw [toList_fill, String.toList_ofList, hpath]
  · rintro ⟨value, hne, hslash, rfl⟩
    refine ⟨_, p.toList_fill value, value.toList, _, ?_, hslash, rfl, rfl⟩
    exact fun hnil => hne (String.toList_eq_nil_iff.mp hnil)

/-- A value is matched by the parameter if it stays within its segment. -/
theorem matches_fill_iff {value : String} (hne : value ≠ "") :
    Matches p.pattern (p.fill value) ↔ '/' ∉ value.toList := by
  rw [matches_iff]
  constructor
  · rintro ⟨value', -, hslash, hfill⟩
    rwa [p.fill_injective hfill]
  · exact fun hslash => ⟨value, hne, hslash, rfl⟩

end ParamPath

/-! ## One route per pattern -/

namespace RouteStore

variable {T F : Type} {env : RouterCrates T F} {s : RouteStore T F} {r : Route F}

/-- No tree holds two routes under one pattern. -/
def OnePerPattern (env : RouterCrates T F) (s : RouteStore T F) : Prop :=
  ∀ m, ∀ e ∈ env.matchit.entries (s.trees m), ∀ e' ∈ env.matchit.entries (s.trees m),
    e.1 = e'.1 → e = e'

theorem onePerPattern_new (path : String) : OnePerPattern env (new env path) := fun m e he =>
  absurd he (notMem_entries_new path m e)

theorem OnePerPattern.addRoute (h : OnePerPattern env s) (r : Route F) :
    OnePerPattern env (s.addRoute env r).2 := by
  rcases addRoute_cases env s r with ⟨e, he⟩ | ⟨s', hok, hadd⟩
  · rw [he]
    exact h
  rw [hok]
  intro m e he e' he' heq
  rcases (hadd.mem_entries m e).mp he with he | ⟨hm, rfl⟩
  · rcases (hadd.mem_entries m e').mp he' with he' | ⟨hm, rfl⟩
    · exact h m e he e' he' heq
    · exact absurd heq (hadd.fresh m hm e he)
  · rcases (hadd.mem_entries m e').mp he' with he' | ⟨-, rfl⟩
    · exact absurd heq.symm (hadd.fresh m hm e' he')
    · rfl

/-- The trees stay as they are. -/
theorem OnePerPattern.removeRoute (h : OnePerPattern env s) (path method : String) :
    OnePerPattern env (s.removeRoute env path method).2 := by
  rcases removeRoute_cases env s path method with ⟨heq, -⟩ | ⟨index, r, -, -, heq⟩
  · rw [heq]
    exact h
  · rw [heq]
    exact h

theorem OnePerPattern.apply (h : OnePerPattern env s) {call : RouterCall F}
    {s' : RouteStore T F} (hcall : call.apply env s = some s') : OnePerPattern env s' :=
  apply_invariant (fun _ r h => h.addRoute r) (fun _ path method h => h.removeRoute path method) h
    hcall

theorem kept_onePerPattern {base : String} (hs : Reaches (RouterCall.apply env) (new env base) s) :
    Kept env s ∧ OnePerPattern env s := by
  refine @Reaches.invariant _ _ _ (fun s => Kept env s ∧ OnePerPattern env s) _ _ ?_ hs
    ⟨kept_new base, onePerPattern_new base⟩
  exact fun s call s' h hcall => ⟨h.1.apply hcall, h.2.apply hcall⟩

/-! ## The round trip -/

/-- A request of the route's method whose path has the encoded value in the place of the
parameter is for the route, with the parameter bound to the value. -/
def RoundTrips (env : RouterCrates T F) (s : RouteStore T F) (r : Route F)
    (pre name post value : String) : Prop :=
  ∀ incoming : Incoming, incoming.method = env.toUppercase r.method →
    incoming.pathAndQuery.map (·.1) = some (pre ++ percentEncode value ++ post) →
    let req := Request.fromAxum env.toCrates incoming
    s.findMatchingRoute env req.path req.method.asStr =
      some (r, (∅ : StrMap).insert name value)

theorem asStr_fromAxum (m : TreeMethod) : (HttpMethod.fromAxum m.asStr).asStr = m.asStr := by
  cases m <;> rfl

/-- The route that is found, and its parameter, are those of the path. -/
theorem lookup_fill_iff {moreSpecific : String → String → Prop}
    (hmatchit : BindsParams env.matchit moreSpecific) (hcomplete : env.matchit.Complete)
    (hkept : Kept env s) (hone : OnePerPattern env s) (hr : r ∈ s.routes) {p : ParamPath}
    (hpath : getFullPath s.path r.path = p.path) {m : TreeMethod}
    (hm : env.toUppercase r.method = m.asStr) {value : String} (hne : value ≠ "")
    (hmost : ∀ e ∈ env.matchit.entries (s.trees m), Matches e.1 (p.fill value) →
      e.1 ≠ p.pattern → ¬ moreSpecific e.1 p.pattern)
    (hsuffix : ∀ e ∈ env.matchit.entries (s.trees m), ¬ EntersSuffix e.1 (p.fill value)) :
    env.matchit.lookup (s.trees m) (p.fill value) = some (r, p.bound value) ↔
      '/' ∉ value.toList := by
  have hpattern : s.pattern r = p.pattern := by
    rw [pattern, hpath, p.convertToMatchitPath_path]
  have hlisted := hkept.listed r hr m hm
  rw [hpattern] at hlisted
  constructor
  · intro hfound
    obtain ⟨p', hmem, hmatch⟩ := env.matchit.lookup_sound hfound
    have hp' : p' = p.pattern := ((hkept.entries m _ hmem).1).trans hpattern
    rw [hp'] at hmatch
    exact (p.matches_fill_iff hne).mp hmatch
  · intro hslash
    have hmatch : Matches p.pattern (p.fill value) := (p.matches_fill_iff hne).mpr hslash
    obtain ⟨found, hfound⟩ :=
      Option.ne_none_iff_exists'.mp (hcomplete _ _ hsuffix _ hlisted hmatch)
    obtain ⟨p', hmem, hmatch', hfirst, hbind⟩ := hmatchit.found hfound hsuffix
    -- a pattern other than the route's would have to be more specific
    have hp' : p' = p.pattern := by
      by_contra hother
      exact hmost _ hmem hmatch' hother (hfirst _ hlisted hmatch (Ne.symm hother))
    subst hp'
    obtain ⟨value', hfill, hbound⟩ := hbind p rfl
    have hroute := hone m _ hmem _ hlisted rfl
    rw [hfound, p.fill_injective hfill]
    exact congrArg some (Prod.ext (congrArg Prod.snd hroute) hbound)

theorem roundTrips_iff {moreSpecific : String → String → Prop}
    (hmatchit : BindsParams env.matchit moreSpecific) (hcomplete : env.matchit.Complete)
    (hdecode : ∀ bytes, env.percentDecodeStr bytes = percentDecode bytes) {base : String}
    (hs : Reaches (RouterCall.apply env) (new env base) s) (hr : r ∈ s.routes) {p : ParamPath}
    (hpath : getFullPath s.path r.path = p.path) (hunescaped : p.Unescaped) {value : String}
    (hne : value ≠ "")
    (hmost : ∀ m : TreeMethod, env.toUppercase r.method = m.asStr →
      ∀ e ∈ env.matchit.entries (s.trees m), Matches e.1 (p.fill value) → e.1 ≠ p.pattern →
        ¬ moreSpecific e.1 p.pattern)
    (hsuffix : ∀ m : TreeMethod, env.toUppercase r.method = m.asStr →
      ∀ e ∈ env.matchit.entries (s.trees m), ¬ EntersSuffix e.1 (p.fill value)) :
    RoundTrips env s r p.pre p.name p.post value ↔ '/' ∉ value.toList := by
  obtain ⟨hkept, hone⟩ := kept_onePerPattern hs
  obtain ⟨m, hm⟩ := hkept.method r hr
  have hlookup :=
    lookup_fill_iff hmatchit hcomplete hkept hone hr hpath hm hne (hmost m hm) (hsuffix m hm)
  have hdecoded : decodePath env.percentDecodeStr
      (some (p.pre ++ percentEncode value ++ p.post)) = p.fill value :=
    decodePath_encode hdecode p.slash hunescaped.1 hunescaped.2
  -- what the router is asked for such a request
  have hasked : ∀ incoming : Incoming, incoming.method = env.toUppercase r.method →
      incoming.pathAndQuery.map (·.1) = some (p.pre ++ percentEncode value ++ p.post) →
      s.findMatchingRoute env (Request.fromAxum env.toCrates incoming).path
          (Request.fromAxum env.toCrates incoming).method.asStr =
        env.matchit.lookup (s.trees m) (p.fill value) := by
    intro incoming hmethod hsent
    have hsame : (HttpMethod.fromAxum incoming.method).asStr = m.asStr := by
      rw [hmethod, hm, asStr_fromAxum]
    rw [findMatchingRoute_eq, Request.fromAxum]
    dsimp only
    rw [hsent, hdecoded, hsame, env.toUppercase_asStr, TreeMethod.ofStr_eq_some.mpr rfl]
    rfl
  rw [← hlookup]
  constructor
  · intro htrip
    have hsent := htrip ⟨some (p.pre ++ percentEncode value ++ p.post, none),
      env.toUppercase r.method, [], none⟩ rfl rfl
    dsimp only at hsent
    rwa [hasked _ rfl rfl] at hsent
  · intro hfound incoming hmethod hsent
    exact (hasked incoming hmethod hsent).trans hfound

end RouteStore

/-! ## A table that binds the parameter -/

namespace Table

variable {V : Type}

/-- The binding of the one parameter of a pattern; a pattern without one binds nothing. -/
def bindParam (pattern path : String) : StrMap :=
  match pattern.toList.dropWhile (· != '\x7b') with
  | [] => ∅
  | _ :: rest =>
    let pre := pattern.toList.takeWhile (· != '\x7b')
    let name := rest.takeWhile (· != '\x7d')
    let post := rest.drop (name.length + 1)
    let value := (path.toList.drop pre.length).take (path.toList.length - pre.length - post.length)
    (∅ : StrMap).insert (String.ofList name) (String.ofList value)

theorem bindParam_fill (p : ParamPath) (value : String) :
    bindParam p.pattern (p.fill value) = p.bound value := by
  have hpattern : p.pattern.toList =
      p.pre.toList ++ '\x7b' :: (p.name.toList ++ '\x7d' :: p.post.toList) := by
    rw [ParamPath.pattern]
    simp only [String.toList_append, List.append_assoc]
    rfl
  have hpre : ∀ c ∈ p.pre.toList, (c != '\x7b') = true := fun c hc =>
    bne_iff_ne.mpr (p.literal c (List.mem_append_left _ hc)).2.2.1
  have hname : ∀ c ∈ p.name.toList, (c != '\x7d') = true := fun c hc =>
    bne_iff_ne.mpr (p.nameChars c hc).2.2.2.2.2
  have hlength : (p.fill value).toList.length - p.pre.toList.length - p.post.toList.length =
      value.toList.length := by
    rw [p.toList_fill, List.length_append, List.length_append]
    omega
  unfold bindParam
  rw [hpattern, List.dropWhile_append_of_pos hpre, List.takeWhile_append_of_pos hpre]
  simp only [List.dropWhile_cons, List.takeWhile_cons, bne_self_eq_false, Bool.false_eq_true,
    if_false, List.append_nil, List.takeWhile_append_of_pos hname]
  rw [← List.drop_drop, List.drop_left, List.drop_one, List.tail_cons, hlength, p.toList_fill,
    List.drop_left, List.take_left, String.ofList_toList, String.ofList_toList]
  rfl

def lookupBinding (t : List (String × V)) (path : String) : Option (V × StrMap) :=
  (best path t).map fun e => (e.2, bindParam e.1 path)

end Table

def bindingMatchit (V : Type) : Matchit (List (String × V)) V :=
  { tableMatchit V with
    lookup := Table.lookupBinding
    lookup_sound := fun h => by
      obtain ⟨e, he, rfl⟩ := Option.map_eq_some_iff.mp h
      exact ⟨e.1, (Table.best_spec he).1, (Table.best_spec he).2.1⟩
    lookup_first := fun h _ => by
      obtain ⟨e, he, rfl⟩ := Option.map_eq_some_iff.mp h
      exact ⟨e.1, Table.best_spec he⟩ }

theorem complete_bindingMatchit (V : Type) : (bindingMatchit V).Complete :=
  fun _ _ _ _ he hmatch hnone =>
    Table.best_ne_none he hmatch (Option.map_eq_none_iff.mp hnone)

theorem bindsParams_bindingMatchit (V : Type) :
    BindsParams (bindingMatchit V) fun p q => patternKinds p ≤ patternKinds q where
  found {t path r} h _ := by
    obtain ⟨e, he, rfl⟩ := Option.map_eq_some_iff.mp h
    obtain ⟨hmem, hmatch, hfirst⟩ := Table.best_spec he
    refine ⟨e.1, hmem, hmatch, fun e' he' hmatch' _ => not_lt.mp (hfirst e' he' hmatch'), ?_⟩
    intro q hq
    rw [← hq] at hmatch ⊢
    obtain ⟨value, -, -, rfl⟩ := ParamPath.matches_iff.mp hmatch
    exact ⟨value, rfl, Table.bindParam_fill q value⟩

namespace RouteStore

def bindingCrates : RouterCrates (List (String × Route Unit)) Unit where
  toCrates := (asciiCrates Unit).toCrates
  matchit := bindingMatchit (Route Unit)
  toUppercase_asStr := (asciiCrates Unit).toUppercase_asStr

def filesRoute : Route Unit := ⟨"/files/:name", (), "GET"⟩

def filesPath : ParamPath where
  pre := "/files/"
  name := "name"
  post := ""
  slash := by decide
  boundary := .inl rfl
  literal c hc := by
    have hall : "/files/".toList.all fun c =>
        decide (c ≠ ':' ∧ c ≠ '*' ∧ c ≠ '\x7b' ∧ c ≠ '\x7d') := by decide
    exact of_decide_eq_true (List.all_eq_true.mp hall c hc)
  name_ne := by decide
  nameChars c hc := by
    have hall : "name".toList.all fun c => decide
        (c ≠ '/' ∧ c ≠ '-' ∧ c ≠ '.' ∧ c ≠ '*' ∧ c ≠ '\x7b' ∧ c ≠ '\x7d') := by decide
    exact of_decide_eq_true (List.all_eq_true.mp hall c hc)

/-- A router with one route. -/
def routerOf (r : Route Unit) : RouteStore (List (String × Route Unit)) Unit :=
  ((new bindingCrates "").addRoute bindingCrates r).2

theorem filesPath_unescaped : filesPath.Unescaped := by
  unfold ParamPath.Unescaped Http.Unescaped
  decide +kernel

theorem entries_routerOf (m : TreeMethod) (hm : bindingCrates.toUppercase "GET" = m.asStr) :
    bindingCrates.matchit.entries ((routerOf filesRoute).trees m) =
      [(filesPath.pattern, filesRoute)] := by
  obtain rfl : TreeMethod.get = m := TreeMethod.asStr_injective hm
  rfl

theorem reserved_value_round_trips :
    RoundTrips bindingCrates (routerOf filesRoute) filesRoute "/files/" "name" "" "50% of a?b=ü#" := by
  have hreach : Reaches (RouterCall.apply bindingCrates) (new bindingCrates "")
      (routerOf filesRoute) := ⟨[.addRoute filesRoute], rfl⟩
  have hr : filesRoute ∈ (routerOf filesRoute).routes := List.mem_singleton_self _
  have hpath : getFullPath (routerOf filesRoute).path filesRoute.path = filesPath.path := by decide
  refine (roundTrips_iff (bindsParams_bindingMatchit _) (complete_bindingMatchit _) (fun _ => rfl)
    hreach hr hpath filesPath_unescaped (by decide) (fun m hm e he _ hne => ?_)
    fun m hm e he => ?_).mpr (by decide)
  · rw [entries_routerOf m hm, List.mem_singleton] at he
    exact absurd (congrArg Prod.fst he) hne
  · rw [entries_routerOf m hm, List.mem_singleton] at he
    subst he
    refine SuffixFree.not_entersSuffix (fun ts hts => ?_) _
    obtain rfl := Option.some.inj (filesPath.tokens_pattern.symm.trans hts)
    decide

end RouteStore

/-! ## A table that gives up behind a parameter -/

/-- The path goes into the text behind a parameter of the pattern, and not to the end of it. -/
def Table.abandons {V : Type} (path : String) (e : String × V) : Bool :=
  (tokens e.1).any fun ts => entersSuffix ts path.toList && !matchTokens ts path.toList

def abandoningMatchit (V : Type) : Matchit (List (String × V)) V :=
  { bindingMatchit V with
    lookup := fun t path =>
      if t.any (Table.abandons path) then none else Table.lookupBinding t path
    lookup_sound := fun h => (bindingMatchit V).lookup_sound (Option.ite_none_left_eq_some.mp h).2
    lookup_first := fun h => (bindingMatchit V).lookup_first (Option.ite_none_left_eq_some.mp h).2 }

namespace RouteStore

def abandoningCrates : RouterCrates (List (String × Route Unit)) Unit :=
  { bindingCrates with matchit := abandoningMatchit (Route Unit) }

def listRoute : Route Unit := ⟨"/:x/list", (), "GET"⟩

/-- A route with text behind its parameter beside one without. -/
def suffixRouter : RouteStore (List (String × Route Unit)) Unit :=
  (new abandoningCrates "").extendRoute abandoningCrates [listRoute, ⟨"/:x.json/raw", (), "GET"⟩]

/-- A slash in the value makes two segments of it, escapes in a literal segment are decoded as
well, a name ends at a dash, and the tree does not come back from the text behind a parameter. -/
theorem slash_value_not_found :
    ¬ RoundTrips bindingCrates (routerOf filesRoute) filesRoute "/files/" "name" "" "a/b" ∧
    ¬ RoundTrips bindingCrates (routerOf ⟨"/a%20b/:name", (), "GET"⟩) ⟨"/a%20b/:name", (), "GET"⟩
      "/a%20b/" "name" "" "v" ∧
    ¬ RoundTrips bindingCrates (routerOf ⟨"/:user-id", (), "GET"⟩) ⟨"/:user-id", (), "GET"⟩
      "/" "user-id" "" "v" ∧
    ¬ RoundTrips abandoningCrates suffixRouter listRoute "/" "x" "/list" "a.json" := by
  refine ⟨fun h => ?_, fun h => ?_, fun h => ?_, fun h => ?_⟩
  · have hfound := h ⟨some ("/files/a%2Fb", none), "GET", [], none⟩ rfl rfl
    cases hfound
  · have hfound := h ⟨some ("/a%20b/v", none), "GET", [], none⟩ rfl rfl
    cases hfound
  · have hfound := h ⟨some ("/v", none), "GET", [], none⟩ rfl rfl
    cases hfound
  · have hfound := h ⟨some ("/a.json/list", none), "GET", [], none⟩ rfl rfl
    cases hfound

end RouteStore

end Hypern.Routing
