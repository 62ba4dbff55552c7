import Hypern.Lib.Search
import Hypern.Routing.Registration

/-! The two lookups of a router: `get_route` scans the list with `Route::matches`, and
`find_matching_route` asks the trees. -/

namespace Hypern.Routing

open Http

/-- `path.split('/').filter(|s| !s.is_empty())` -/
def parts (path : List Char) : List (List Char) := (path.splitOn '/').filter (!·.isEmpty)

variable {T F : Type}

def partMatches (part : List Char × List Char) : Bool :=
  part.1.head? == some ':' || part.1 == part.2

def Route.matches (env : RouterCrates T F) (r : Route F) (path method : String) : Bool :=
  env.toUppercase r.method == env.toUppercase method &&
    ((parts r.path.toList).length == (parts path.toList).length &&
      ((parts r.path.toList).zip (parts path.toList)).all partMatches)

namespace RouteStore

variable (env : RouterCrates T F)

def getRoute (s : RouteStore T F) (path method : String) : Option (Route F) :=
  s.routes.find? (·.matches env path method)

/-- Both lookups return the same route, or neither returns one. -/
def LookupsAgree (s : RouteStore T F) (path method : String) : Prop :=
  s.getRoute env path method = (s.findMatchingRoute env path method).map (·.1)

end RouteStore

/-! ## Parts -/

theorem parts_append_slash (cs ds : List Char) : parts (cs ++ '/' :: ds) = parts cs ++ parts ds := by
  rw [parts, List.splitOn_append_cons_self, List.filter_append]
  rfl

theorem parts_slashes_append (k : Nat) (cs : List Char) :
    parts (List.replicate k '/' ++ cs) = parts cs := by
  induction k with
  | zero => rw [List.replicate_zero, List.nil_append]
  | succ k ih =>
    have hslash := parts_append_slash [] (List.replicate k '/' ++ cs)
    rw [List.replicate_succ, List.cons_append]
    exact hslash.trans ih

theorem length_parts_append (cs : List Char) (n : Nat) :
    n ≤ (parts (cs ++ (List.replicate n ['/', 'x']).flatten)).length := by
  induction n with
  | zero => exact Nat.zero_le _
  | succ n ih =>
    rw [List.replicate_succ', List.flatten_append, ← List.append_assoc]
    change _ ≤ (parts (_ ++ '/' :: ['x'])).length
    rw [parts_append_slash, List.length_append]
    exact Nat.add_le_add ih (Nat.le_refl 1)

theorem sep_not_mem_of_mem_splitOn {α : Type} [BEq α] [LawfulBEq α] {sep : α} {xs piece : List α}
    (h : piece ∈ xs.splitOn sep) : sep ∉ piece := by
  induction xs generalizing piece with
  | nil =>
    obtain rfl := List.mem_singleton.mp h
    exact List.not_mem_nil
  | cons x xs ih =>
    rw [List.splitOn_cons_eq_if_modifyHead] at h
    split_ifs at h with hx
    · rcases List.mem_cons.mp h with rfl | h
      · exact List.not_mem_nil
      · exact ih h
    · cases hsplit : xs.splitOn sep with
      | nil => exact absurd hsplit (List.splitOn_ne_nil _ _)
      | cons head tail =>
        rw [hsplit] at h ih
        rcases List.mem_cons.mp h with rfl | h
        · rw [List.mem_cons, not_or]
          exact ⟨fun heq => hx (heq ▸ beq_self_eq_true sep), ih List.mem_cons_self⟩
        · exact ih (List.mem_cons_of_mem _ h)

theorem not_slash_mem_parts {cs part : List Char} (h : part ∈ parts cs) : '/' ∉ part :=
  sep_not_mem_of_mem_splitOn (List.mem_filter.mp h).1

theorem ne_nil_of_mem_parts {cs part : List Char} (h : part ∈ parts cs) : part ≠ [] := by
  simpa using (List.mem_filter.mp h).2

theorem partMatches_self (l : List (List Char)) : (l.zip l).all partMatches = true := by
  rw [List.all_eq_true]
  intro part hpart
  obtain ⟨i, hi, rfl⟩ := List.mem_iff_getElem.mp hpart
  simp [partMatches]

/-! ## Paths with many slashes -/

theorem matchTokens_lits {part : List Char} {ts : List Token} {cs : List Char} :
    matchTokens (part.map .lit ++ ts) cs = true ↔
      ∃ rest, cs = part ++ rest ∧ matchTokens ts rest = true := by
  induction part generalizing cs with
  | nil => simp
  | cons c part ih =>
    cases cs with
    | nil => simp [matchTokens]
    | cons d cs =>
      change (c == d && matchTokens (part.map .lit ++ ts) cs) = true ↔ _
      rw [Bool.and_eq_true, beq_iff_eq, ih]
      constructor
      · rintro ⟨rfl, rest, rfl, hrest⟩
        exact ⟨rest, rfl, hrest⟩
      · rintro ⟨rest, heq, hrest⟩
        obtain ⟨rfl, rfl⟩ := List.cons.inj heq
        exact ⟨rfl, rest, rfl, hrest⟩

/-- Slashes, and then whatever comes. -/
def RootCatchAll (ts : List Token) : Prop :=
  ∃ n, ts = List.replicate n (.lit '/') ++ [.catchAll]

/-- Of the patterns only a catch-all behind slashes matches a path that starts with more slashes than
the pattern has tokens. -/
theorem rootCatchAll_of_matchTokens {ts : List Token} {k : Nat} {rest : List Char}
    (hlong : ts.length < k) (h : matchTokens ts (List.replicate k '/' ++ rest) = true) :
    RootCatchAll ts := by
  induction ts generalizing k with
  | nil =>
    obtain ⟨k, rfl⟩ := Nat.exists_eq_succ_of_ne_zero (Nat.ne_zero_of_lt hlong)
    cases h
  | cons t ts ih =>
    obtain ⟨k, rfl⟩ := Nat.exists_eq_succ_of_ne_zero (Nat.ne_zero_of_lt hlong)
    rw [List.replicate_succ, List.cons_append] at h
    cases t with
    | lit c =>
      obtain ⟨hc, htail⟩ := Bool.and_eq_true_iff.mp h
      obtain rfl : c = '/' := beq_iff_eq.mp hc
      obtain ⟨n, rfl⟩ := ih (Nat.lt_of_succ_lt_succ hlong) htail
      exact ⟨n + 1, rfl⟩
    | param =>
      -- a parameter takes no slash
      obtain ⟨v, rest', hv, hslash, heq, -⟩ := matchTokens_param.mp h
      obtain ⟨c, v, rfl⟩ := List.exists_cons_of_ne_nil hv
      exact absurd ((List.cons.inj heq).1 ▸ List.mem_cons_self) hslash
    | catchAll =>
      obtain ⟨hend, -⟩ := Bool.and_eq_true_iff.mp h
      obtain rfl := List.isEmpty_iff.mp hend
      exact ⟨0, rfl⟩

/-- No pattern with so few tokens leads behind a parameter either. -/
theorem entersSuffix_of_slashes {ts : List Token} {k : Nat} (hlong : ts.length < k)
    (rest : List Char) : entersSuffix ts (List.replicate k '/' ++ rest) = false := by
  induction ts generalizing k with
  | nil => rfl
  | cons t ts ih =>
    obtain ⟨k, rfl⟩ := Nat.exists_eq_succ_of_ne_zero (Nat.ne_zero_of_lt hlong)
    rw [List.replicate_succ, List.cons_append]
    cases t with
    | lit c => rw [entersSuffix, ih (Nat.lt_of_succ_lt_succ hlong), Bool.and_false]
    | param =>
      rw [entersSuffix]
      simp
    | catchAll => rfl

theorem RootCatchAll.matchTokens {ts : List Token} (h : RootCatchAll ts) {k : Nat}
    (hlong : ts.length ≤ k + 1) {rest : List Char} (hrest : rest ≠ []) :
    matchTokens ts (List.replicate k '/' ++ rest) = true := by
  obtain ⟨n, rfl⟩ := h
  rw [List.length_append, List.length_replicate] at hlong
  obtain ⟨k, rfl⟩ := Nat.exists_eq_add_of_le (Nat.le_of_succ_le_succ hlong)
  rw [List.replicate_add, List.append_assoc, ← List.map_replicate]
  refine matchTokens_lits.mpr ⟨_, rfl, ?_⟩
  simp [Routing.matchTokens, hrest]

theorem exists_bound {α : Type} (l : List α) (f : α → Nat) : ∃ k, ∀ a ∈ l, f a < k := by
  induction l with
  | nil => exact ⟨0, nofun⟩
  | cons b l ih =>
    obtain ⟨k, hk⟩ := ih
    refine ⟨max k (f b + 1), List.forall_mem_cons.mpr ⟨?_, fun a ha => ?_⟩⟩
    · omega
    · have hlt := hk a ha
      omega

/-! ## No router with a route agrees with itself -/

namespace RouteStore

variable {env : RouterCrates T F} {s : RouteStore T F} {r : Route F}

/-- More slashes than any listed pattern has tokens. -/
theorem exists_slashes (s : RouteStore T F) :
    ∃ k, ∀ r ∈ s.routes, ∀ ts, tokens (s.pattern r) = some ts → ts.length < k := by
  obtain ⟨k, hk⟩ := exists_bound s.routes fun r => ((tokens (s.pattern r)).getD []).length
  refine ⟨k, fun r hr ts hts => ?_⟩
  have hlt := hk r hr
  rwa [hts, Option.getD_some] at hlt

/-- A path behind a catch-all of the root may have more segments than any listed route. -/
theorem disagree_of_rootCatchAll (hs : Kept env s) (hlisted : Listed env s)
    (hcomplete : env.matchit.Complete) (hr : r ∈ s.routes) {ts : List Token}
    (hts : tokens (s.pattern r) = some ts) (hroot : RootCatchAll ts) :
    ∃ path method, ¬ s.LookupsAgree env path method := by
  obtain ⟨k, hk⟩ := s.exists_slashes
  obtain ⟨n, hn⟩ := exists_bound s.routes fun r => (parts r.path.toList).length
  -- slashes that no other pattern gets past, and then more segments than any route has
  let rest := 'x' :: (List.replicate n ['/', 'x']).flatten
  let path := List.replicate k '/' ++ rest
  have hmatch : Matches (s.pattern r) (String.ofList path) := by
    refine ⟨ts, hts, ?_⟩
    rw [String.toList_ofList]
    exact hroot.matchTokens (Nat.le_succ_of_le (hk r hr ts hts).le) (List.cons_ne_nil _ _)
  have hlong : n ≤ (parts path).length := by
    have h := length_parts_append (List.replicate k '/' ++ ['x']) n
    rwa [List.append_assoc] at h
  refine ⟨String.ofList path, r.method, fun hagree => ?_⟩
  have hnone : s.getRoute env (String.ofList path) r.method = none := by
    refine List.find?_eq_none.mpr fun r' hr' hmatches => ?_
    rw [Route.matches, String.toList_ofList, Bool.and_eq_true, Bool.and_eq_true] at hmatches
    have hlen := beq_iff_eq.mp hmatches.2.1
    have hlt := hn r' hr'
    omega
  rw [LookupsAgree, hnone] at hagree
  refine hs.found_of_matches hcomplete hr rfl (fun m hm e he => ?_) hmatch
    (Option.map_eq_none_iff.mp hagree.symm)
  -- no pattern has as many tokens as there are slashes, so none leads the search behind a parameter
  rintro ⟨ts', hts', henters⟩
  rw [(hs.entries m e he).1] at hts'
  rw [String.toList_ofList, entersSuffix_of_slashes (hk _ (hlisted m e he) ts' hts')] at henters
  exact Bool.false_ne_true henters

/-- Slashes in front make no difference to `Route::matches`, and only a catch-all of the root
matches arbitrarily many. -/
theorem disagree_of_no_rootCatchAll (hs : Kept env s) (hlisted : Listed env s) (hr : r ∈ s.routes)
    (hroot : ∀ r ∈ s.routes, ∀ ts, tokens (s.pattern r) = some ts → ¬ RootCatchAll ts) :
    ∃ path method, ¬ s.LookupsAgree env path method := by
  obtain ⟨k, hk⟩ := s.exists_slashes
  -- `Route::matches` passes over the slashes in front, and the tree does not
  let path := List.replicate k '/' ++ r.path.toList
  have hself : r.matches env (String.ofList path) r.method = true := by
    rw [Route.matches, String.toList_ofList, parts_slashes_append]
    simp [partMatches_self]
  refine ⟨String.ofList path, r.method, fun hagree => ?_⟩
  obtain ⟨r', hr'⟩ : ∃ r', s.getRoute env (String.ofList path) r.method = some r' :=
    Option.isSome_iff_exists.mp (List.find?_isSome.mpr ⟨r, hr, hself⟩)
  obtain ⟨⟨r'', params⟩, hfind, rfl⟩ := Option.map_eq_some_iff.mp (hagree.symm.trans hr')
  obtain ⟨m, -, p, hp, ts, hts, hmatch⟩ := stored_of_found hfind
  obtain rfl : p = s.pattern r'' := (hs.entries m _ hp).1
  have hmem : r'' ∈ s.routes := hlisted.found hfind
  rw [String.toList_ofList] at hmatch
  exact hroot r'' hmem ts hts (rootCatchAll_of_matchTokens (hk r'' hmem ts hts) hmatch)

theorem disagree_of_mem (hs : Kept env s) (hlisted : Listed env s)
    (hcomplete : env.matchit.Complete) (hr : r ∈ s.routes) :
    ∃ path method, ¬ s.LookupsAgree env path method := by
  by_cases hroot : ∀ r ∈ s.routes, ∀ ts, tokens (s.pattern r) = some ts → ¬ RootCatchAll ts
  · exact disagree_of_no_rootCatchAll hs hlisted hr hroot
  · push Not at hroot
    obtain ⟨r', hr', ts, hts, hcatch⟩ := hroot
    exact disagree_of_rootCatchAll hs hlisted hcomplete hr' hts hcatch

end RouteStore

/-! ## Plain routes and plain paths -/

/-- A static segment, or a parameter that takes up its whole segment. -/
def plainPart : List Char → Bool
  | ':' :: name => !name.isEmpty && name.all fun c => !(['-', '.', '*', '\x7b', '\x7d'].contains c)
  | part => part.all fun c => !([':', '*', '\x7b', '\x7d'].contains c)

/-- The path with these segments, each behind one slash. -/
def joinParts : List (List Char) → List Char
  | [] => ['/']
  | segments => segments.flatMap ('/' :: ·)

/-- The path starts with a slash and has no empty segment. -/
def PlainPath (path : String) : Prop := path.toList = joinParts (parts path.toList)

def Route.Plain (r : Route F) : Prop :=
  PlainPath r.path ∧ ∀ part ∈ parts r.path.toList, plainPart part = true

def partTokens (part : List Char) : List Token :=
  if part.head? = some ':' then [.param] else part.map .lit

def joinTokens : List (List Char) → List Token
  | [] => [.lit '/']
  | segments => segments.flatMap fun part => .lit '/' :: partTokens part

/-- Nothing, or text that starts with a slash: where a segment ends. -/
def Boundary (cs : List Char) : Prop := cs = [] ∨ cs.head? = some '/'

theorem boundary_joined (segments : List (List Char)) :
    Boundary (segments.flatMap ('/' :: ·)) := by
  cases segments with
  | nil => exact .inl rfl
  | cons part segments => exact .inr rfl

/-- What the tokens behind a segment match starts at the end of the segment. -/
theorem boundary_of_matchTokens {segments : List (List Char)} {cs : List Char}
    (h : matchTokens (segments.flatMap fun part => .lit '/' :: partTokens part) cs = true) :
    Boundary cs := by
  cases segments with
  | nil => exact .inl (List.isEmpty_iff.mp h)
  | cons part segments =>
    cases cs with
    | nil => exact .inl rfl
    | cons c cs =>
      have hc := (Bool.and_eq_true_iff.mp h).1
      exact .inr (congrArg some (beq_iff_eq.mp hc).symm)

/-- One segment of a plain pattern against one segment of a plain path. -/
theorem matchTokens_part {part q : List Char} (hpart : '/' ∉ part) (hq : '/' ∉ q) (hne : q ≠ [])
    {segments qs : List (List Char)} :
    matchTokens (partTokens part ++ segments.flatMap fun part => .lit '/' :: partTokens part)
        (q ++ qs.flatMap ('/' :: ·)) = true ↔
      partMatches (part, q) = true ∧
        matchTokens (segments.flatMap fun part => .lit '/' :: partTokens part)
          (qs.flatMap ('/' :: ·)) = true := by
  have hqs : Boundary (qs.flatMap ('/' :: ·)) := boundary_joined qs
  by_cases hparam : part.head? = some ':'
  · have htokens : partTokens part = [.param] := if_pos hparam
    have hpm : partMatches (part, q) = true := by simp [partMatches, hparam]
    rw [htokens, hpm, List.singleton_append, matchTokens_param]
    constructor
    · rintro ⟨v, rest, -, hv, heq, hrest⟩
      obtain ⟨rfl, rfl⟩ :=
        Lib.eq_of_append_eq hq hv hqs (boundary_of_matchTokens hrest) heq
      exact ⟨rfl, hrest⟩
    · rintro ⟨-, hrest⟩
      exact ⟨q, _, hne, hq, rfl, hrest⟩
  · have htokens : partTokens part = part.map .lit := if_neg hparam
    have hpm : partMatches (part, q) = true ↔ part = q := by simp [partMatches, hparam]
    rw [htokens, hpm, matchTokens_lits]
    constructor
    · rintro ⟨rest, heq, hrest⟩
      obtain ⟨rfl, rfl⟩ :=
        Lib.eq_of_append_eq hq hpart hqs (boundary_of_matchTokens hrest) heq
      exact ⟨rfl, hrest⟩
    · rintro ⟨rfl, hrest⟩
      exact ⟨_, rfl, hrest⟩

/-- A plain pattern matches a plain path segment by segment. -/
theorem matchTokens_segments {segments qs : List (List Char)}
    (hsegments : ∀ part ∈ segments, '/' ∉ part) (hqs : ∀ q ∈ qs, q ≠ [] ∧ '/' ∉ q) :
    matchTokens (segments.flatMap fun part => .lit '/' :: partTokens part)
        (qs.flatMap ('/' :: ·)) = true ↔
      segments.length = qs.length ∧ (segments.zip qs).all partMatches = true := by
  induction segments generalizing qs with
  | nil =>
    cases qs with
    | nil => simp [matchTokens]
    | cons q qs => simp [matchTokens]
  | cons part segments ih =>
    cases qs with
    | nil => simp [matchTokens]
    | cons q qs =>
      rw [List.forall_mem_cons] at hsegments hqs
      rw [List.flatMap_cons, List.flatMap_cons, List.cons_append, List.cons_append, matchTokens,
        beq_self_eq_true, Bool.true_and, matchTokens_part hsegments.1 hqs.1.2 hqs.1.1,
        ih hsegments.2 hqs.2]
      simp only [List.length_cons, Nat.add_right_cancel_iff, List.zip_cons_cons, List.all_cons,
        Bool.and_eq_true]
      tauto

/-- The root alone has no segment, and its pattern matches no other plain path. -/
theorem matchTokens_join (segments qs : List (List Char))
    (hsegments : ∀ part ∈ segments, part ≠ [] ∧ '/' ∉ part) (hqs : ∀ q ∈ qs, q ≠ [] ∧ '/' ∉ q) :
    matchTokens (joinTokens segments) (joinParts qs) = true ↔
      segments.length = qs.length ∧ (segments.zip qs).all partMatches = true := by
  cases segments with
  | nil =>
    cases qs with
    | nil => simp [joinTokens, joinParts, matchTokens]
    | cons q qs => simp [joinTokens, joinParts, matchTokens, (hqs q List.mem_cons_self).1]
  | cons part segments =>
    cases qs with
    | nil =>
      have hpart := (hsegments part List.mem_cons_self).1
      obtain ⟨c, part, rfl⟩ := List.exists_cons_of_ne_nil hpart
      by_cases hc : c = ':' <;> simp [joinTokens, joinParts, matchTokens, partTokens, hc]
    | cons q qs =>
      exact matchTokens_segments (fun part hpart => (hsegments part hpart).2) hqs

/-! ## The pattern of a plain route -/

theorem convertFrom_name {name rest : List Char} (hrest : Boundary rest)
    (hname : ∀ c ∈ name, c ≠ '/' ∧ c ≠ '-' ∧ c ≠ '.') :
    convertFrom (name ++ rest) .param = name ++ '\x7d' :: convertFrom rest .literal := by
  induction name with
  | nil =>
    cases rest with
    | nil => rfl
    | cons c rest =>
      obtain rfl : c = '/' := by simpa [Boundary] using hrest
      rfl
  | cons c name ih =>
    rw [List.forall_mem_cons] at hname
    have hc : ¬ (c = '/' ∨ c = '-' ∨ c = '.') := by tauto
    rw [List.cons_append, convertFrom, if_neg hc, ih hname.2, List.cons_append]

theorem readTokens_name {name cs : List Char} (hname : '\x7d' ∉ name) :
    readTokens (name ++ '\x7d' :: cs) (.named false) =
      (readTokens cs .text).map (.param :: ·) := by
  induction name with
  | nil => rfl
  | cons c name ih =>
    rw [List.mem_cons, not_or] at hname
    rw [List.cons_append, readTokens, if_neg (Ne.symm hname.1), ih hname.2]

theorem readTokens_static {part rest : List Char}
    (hpart : ∀ c ∈ part, c ≠ ':' ∧ c ≠ '*' ∧ c ≠ '\x7b' ∧ c ≠ '\x7d') :
    readTokens (convertFrom (part ++ rest) .literal) .text =
      (readTokens (convertFrom rest .literal) .text).map (part.map .lit ++ ·) := by
  induction part with
  | nil => simp
  | cons c part ih =>
    rw [List.forall_mem_cons] at hpart
    obtain ⟨⟨hcolon, hstar, hopen, hclose⟩, htail⟩ := hpart
    rw [List.cons_append, convertFrom, if_neg hcolon, if_neg hstar, readTokens, if_neg hopen,
      if_neg hclose, ih htail, Option.map_map]
    rfl

theorem readTokens_part {part rest : List Char} (hplain : plainPart part = true)
    (hslash : '/' ∉ part) (hrest : Boundary rest) :
    readTokens (convertFrom (part ++ rest) .literal) .text =
      (readTokens (convertFrom rest .literal) .text).map (partTokens part ++ ·) := by
  by_cases hparam : part.head? = some ':'
  · have htokens : partTokens part = [.param] := if_pos hparam
    obtain ⟨name, rfl⟩ := List.head?_eq_some_iff.mp hparam
    rw [plainPart, Bool.and_eq_true, List.all_eq_true] at hplain
    obtain ⟨hne, hname⟩ := hplain
    obtain ⟨c, name, rfl⟩ := List.exists_cons_of_ne_nil (by simpa using hne : name ≠ [])
    have hchars : ∀ d ∈ c :: name, d ≠ '-' ∧ d ≠ '.' ∧ d ≠ '*' ∧ d ≠ '\x7b' ∧ d ≠ '\x7d' := by
      intro d hd
      simpa using hname d hd
    have hsep : ∀ d ∈ c :: name, d ≠ '/' ∧ d ≠ '-' ∧ d ≠ '.' := by
      intro d hd
      refine ⟨?_, (hchars d hd).1, (hchars d hd).2.1⟩
      rintro rfl
      exact hslash (List.mem_cons_of_mem _ hd)
    obtain ⟨-, -, hstar, hopen, hclose⟩ := hchars c List.mem_cons_self
    have hclose' : '\x7d' ∉ name := fun hmem =>
      (hchars _ (List.mem_cons_of_mem _ hmem)).2.2.2.2 rfl
    rw [htokens, List.cons_append, convertFrom, if_pos rfl, convertFrom_name hrest hsep,
      List.cons_append, readTokens, if_pos rfl, readTokens, if_neg hopen, if_neg hclose,
      decide_eq_false hstar, readTokens_name hclose']
    rfl
  · have htokens : partTokens part = part.map .lit := if_neg hparam
    have hchars : ∀ c ∈ part, c ≠ ':' ∧ c ≠ '*' ∧ c ≠ '\x7b' ∧ c ≠ '\x7d' := by
      intro c hc
      unfold plainPart at hplain
      split at hplain
      · exact absurd rfl hparam
      · simpa using List.all_eq_true.mp hplain c hc
    rw [htokens, readTokens_static hchars]

theorem readTokens_join {segments : List (List Char)}
    (hsegments : ∀ part ∈ segments, plainPart part = true ∧ '/' ∉ part) :
    readTokens (convertFrom (joinParts segments) .literal) .text = some (joinTokens segments) := by
  have hflat : readTokens (convertFrom (segments.flatMap ('/' :: ·)) .literal) .text =
      some (segments.flatMap fun part => .lit '/' :: partTokens part) := by
    induction segments with
    | nil => rfl
    | cons part segments ih =>
      rw [List.forall_mem_cons] at hsegments
      change (readTokens (convertFrom (part ++ segments.flatMap ('/' :: ·)) .literal) .text).map _ = _
      rw [readTokens_part hsegments.1.1 hsegments.1.2 (boundary_joined segments),
        ih hsegments.2]
      rfl
  cases segments with
  | nil => rfl
  | cons part segments => exact hflat

theorem trimStart_joinParts {segments : List (List Char)}
    (hsegments : ∀ part ∈ segments, part ≠ [] ∧ '/' ∉ part) :
    '/' :: trimStart (joinParts segments) = joinParts segments := by
  cases segments with
  | nil => rfl
  | cons part segments =>
    obtain ⟨hne, hslash⟩ := hsegments part List.mem_cons_self
    obtain ⟨c, part, rfl⟩ := List.exists_cons_of_ne_nil hne
    have hc : (c == '/') = false :=
      beq_eq_false_iff_ne.mpr fun heq => hslash (List.mem_cons.mpr (.inl heq.symm))
    simp [trimStart, joinParts, hc]

theorem plainTokens_join (segments : List (List Char))
    (hsegments : ∀ part ∈ segments, '/' ∉ part) : PlainTokens (joinTokens segments) := by
  have hpart (part : List Char) :
      (∀ t ∈ partTokens part, ∃ c, t = .lit c) ∨ partTokens part = [.param] := by
    by_cases hparam : part.head? = some ':'
    · exact .inr (if_pos hparam)
    · rw [show partTokens part = part.map .lit from if_neg hparam]
      exact .inl fun t ht => (List.mem_map.mp ht).imp fun c hc => hc.2.symm
  have hsep {part : List Char} (hslash : '/' ∉ part) : Token.lit '/' ∉ partTokens part := by
    by_cases hparam : part.head? = some ':'
    · rw [show partTokens part = [.param] from if_pos hparam]
      simp
    · rw [show partTokens part = part.map .lit from if_neg hparam]
      simpa using hslash
  -- the pieces between the slashes are the segments, behind what stands before the first slash
  have hpieces (lead : List Token) (hlead : Token.lit '/' ∉ lead) :
      ∀ piece ∈ (lead ++ segments.flatMap fun part => .lit '/' :: partTokens part).splitOn (.lit '/'),
        piece = lead ∨ ∃ part ∈ segments, piece = partTokens part := by
    induction segments generalizing lead with
    | nil =>
      intro piece hpiece
      rw [List.flatMap_nil, List.append_nil, List.splitOn_eq_singleton hlead] at hpiece
      exact .inl (List.mem_singleton.mp hpiece)
    | cons part segments ih =>
      rw [List.forall_mem_cons] at hsegments
      intro piece hpiece
      rw [List.flatMap_cons, List.cons_append, List.splitOn_append_cons_self,
        List.splitOn_eq_singleton hlead, List.singleton_append, List.mem_cons] at hpiece
      rcases hpiece with rfl | hpiece
      · exact .inl rfl
      · rcases ih hsegments.2 _ (hsep hsegments.1) piece hpiece with rfl | ⟨part', hmem, rfl⟩
        · exact .inr ⟨part, List.mem_cons_self, rfl⟩
        · exact .inr ⟨part', List.mem_cons_of_mem _ hmem, rfl⟩
  intro piece hpiece
  cases segments with
  | nil =>
    have hsplit : (joinTokens []).splitOn (.lit '/') = [[], []] :=
      List.splitOn_append_cons_self [] []
    rw [hsplit] at hpiece
    have hempty : piece = [] := by simpa using hpiece
    rw [hempty]
    exact .inl nofun
  | cons part segments =>
    rcases hpieces [] List.not_mem_nil piece hpiece with rfl | ⟨part', -, rfl⟩
    · exact .inl nofun
    · exact hpart part'

namespace RouteStore

variable {env : RouterCrates T F} {s : RouteStore T F} {r : Route F}

theorem mem_parts {cs part : List Char} (h : part ∈ parts cs) : part ≠ [] ∧ '/' ∉ part :=
  ⟨ne_nil_of_mem_parts h, not_slash_mem_parts h⟩

theorem tokens_pattern (hbase : trimEnd s.path.toList = []) (hr : r.Plain) :
    tokens (s.pattern r) = some (joinTokens (parts r.path.toList)) := by
  have hfull : (getFullPath s.path r.path).toList = joinParts (parts r.path.toList) := by
    rw [getFullPath, hbase, String.toList_ofList, ← trimStart_joinParts fun _ => mem_parts, ← hr.1]
    rfl
  rw [tokens, pattern, convertToMatchitPath, String.toList_ofList, hfull]
  exact readTokens_join fun part hpart => ⟨hr.2 part hpart, not_slash_mem_parts hpart⟩

theorem suffixFree_join (segments : List (List Char)) : suffixFree (joinTokens segments) = true := by
  have hlits : ∀ (part : List Char) (ts : List Token),
      suffixFree (part.map .lit ++ ts) = suffixFree ts := by
    intro part ts
    induction part with
    | nil => rfl
    | cons c part ih => exact ih
  have hflat : ∀ segments : List (List Char),
      suffixFree (segments.flatMap fun part => .lit '/' :: partTokens part) = true := by
    intro segments
    induction segments with
    | nil => rfl
    | cons part segments ih =>
      change suffixFree (partTokens part ++ segments.flatMap _) = true
      by_cases hparam : part.head? = some ':'
      · have htokens : partTokens part = [.param] := if_pos hparam
        rw [htokens]
        -- the next segment starts with a slash
        refine Bool.and_eq_true_iff.mpr ⟨?_, ih⟩
        cases segments <;> rfl
      · have htokens : partTokens part = part.map .lit := if_neg hparam
        rw [htokens, hlits, ih]
  cases segments with
  | nil => rfl
  | cons part segments => exact hflat (part :: segments)

theorem suffixFree_pattern (hbase : trimEnd s.path.toList = []) (hr : r.Plain) :
    SuffixFree (s.pattern r) := by
  intro ts hts
  obtain rfl := Option.some.inj ((tokens_pattern hbase hr).symm.trans hts)
  exact suffixFree_join _

/-- For a plain route and a plain path the two matchers agree. -/
theorem matches_pattern_iff (hbase : trimEnd s.path.toList = []) (hr : r.Plain) {path : String}
    (hpath : PlainPath path) {method : String} :
    r.matches env path method = true ↔
      env.toUppercase r.method = env.toUppercase method ∧ Matches (s.pattern r) path := by
  have hjoin := matchTokens_join (parts r.path.toList) (parts path.toList)
    (fun _ => mem_parts) (fun _ => mem_parts)
  rw [← hpath] at hjoin
  have hmatches : Matches (s.pattern r) path ↔
      matchTokens (joinTokens (parts r.path.toList)) path.toList = true := by
    simp only [Matches, tokens_pattern hbase hr, Option.some.injEq, exists_eq_left']
  rw [hmatches, hjoin, Route.matches, Bool.and_eq_true, Bool.and_eq_true, beq_iff_eq, beq_iff_eq]

/-- The prefix is empty or slashes, the routes of the method and the path are plain, and of two
routes that match the path the one listed first is the more specific one. -/
structure PlainLookup (env : RouterCrates T F) (s : RouteStore T F) (path method : String) :
    Prop where
  base : trimEnd s.path.toList = []
  routes : ∀ r ∈ s.routes, env.toUppercase r.method = env.toUppercase method → r.Plain
  plainPath : PlainPath path
  order : s.routes.Pairwise fun r r' => r.matches env path method = true →
    r'.matches env path method = true → patternKinds (s.pattern r) < patternKinds (s.pattern r')

/-- The first route that matches has the most specific pattern. -/
theorem PlainLookup.first {path method : String} (h : PlainLookup env s path method)
    (hfirst : s.getRoute env path method = some r) {r' : Route F} (hr' : r' ∈ s.routes)
    (hmatch : r'.matches env path method = true) (hne : r' ≠ r) :
    patternKinds (s.pattern r) < patternKinds (s.pattern r') := by
  obtain ⟨hr, as, bs, heq, has⟩ := List.find?_eq_some_iff_append.mp hfirst
  have horder := h.order
  rw [heq] at hr' horder
  rcases List.mem_append.mp hr' with hmem | hmem
  · have hnot := has r' hmem
    rw [hmatch] at hnot
    cases hnot
  · rcases List.mem_cons.mp hmem with rfl | hmem
    · exact absurd rfl hne
    · exact (List.pairwise_cons.mp (List.pairwise_append.mp horder).2.1).1 r' hmem hr hmatch

theorem PlainLookup.lookupsAgree (hs : Kept env s) (hlisted : Listed env s)
    (hcomplete : env.matchit.Complete) {path method : String} (h : PlainLookup env s path method) :
    s.LookupsAgree env path method := by
  have hentry {m : TreeMethod} (hm : env.toUppercase method = m.asStr) {e : String × Route F}
      (he : e ∈ env.matchit.entries (s.trees m)) :
      e.1 = s.pattern e.2 ∧ e.2 ∈ s.routes ∧ e.2.Plain ∧
        env.toUppercase e.2.method = env.toUppercase method := by
    obtain ⟨hpattern, hmethod, -⟩ := hs.entries m e he
    have hmem := hlisted m e he
    exact ⟨hpattern, hmem, h.routes _ hmem (hmethod.trans hm.symm), hmethod.trans hm.symm⟩
  unfold LookupsAgree
  cases hget : s.getRoute env path method with
  | none =>
    symm
    rw [Option.map_eq_none_iff, Option.eq_none_iff_forall_ne_some]
    rintro ⟨r, params⟩ hfind
    obtain ⟨m, hm, p, hp, hmatch⟩ := stored_of_found hfind
    obtain ⟨hpattern, hmem, hplain, hmethod⟩ := hentry hm hp
    obtain rfl : p = s.pattern r := hpattern
    have hmatches := (matches_pattern_iff h.base hplain h.plainPath).mpr ⟨hmethod, hmatch⟩
    exact List.find?_eq_none.mp hget r hmem hmatches
  | some r =>
    have hr : r ∈ s.routes := List.mem_of_find?_eq_some hget
    have hmatches := List.find?_some hget
    have hmethod : env.toUppercase r.method = env.toUppercase method := by
      rw [Route.matches, Bool.and_eq_true, beq_iff_eq] at hmatches
      exact hmatches.1
    have hplain := h.routes r hr hmethod
    have hpattern := ((matches_pattern_iff h.base hplain h.plainPath).mp hmatches).2
    -- the tree answers, and with no pattern that the first route's is more specific than
    obtain ⟨⟨r', params⟩, hfind⟩ := Option.ne_none_iff_exists'.mp <|
      hs.found_of_matches hcomplete hr hmethod.symm (fun m hm e he => by
        obtain ⟨hpattern, -, hplain, -⟩ := hentry (hmethod.symm.trans hm) he
        rw [hpattern]
        exact (suffixFree_pattern h.base hplain).not_entersSuffix path) hpattern
    rw [hfind, Option.map_some]
    by_contra hne
    rw [findMatchingRoute_eq] at hfind
    obtain ⟨m, hm, hlookup⟩ := Option.bind_eq_some_iff.mp hfind
    have hm := TreeMethod.ofStr_eq_some.mp hm
    have hall : ∀ e ∈ env.matchit.entries (s.trees m), Plain e.1 := by
      intro e he
      obtain ⟨hpattern, -, hplain, -⟩ := hentry hm he
      rw [hpattern]
      exact ⟨_, tokens_pattern h.base hplain,
        plainTokens_join _ fun part hpart => not_slash_mem_parts hpart⟩
    obtain ⟨p, hp, hmatch, hbest⟩ := env.matchit.lookup_first hlookup hall
    obtain ⟨hpattern', hmem, hplain', hmethod'⟩ := hentry hm hp
    obtain rfl : p = s.pattern r' := hpattern'
    refine hbest _ (hs.listed r hr m (hmethod.trans hm)) hpattern ?_
    refine h.first hget hmem ?_ fun heq => hne (congrArg some heq.symm)
    exact (matches_pattern_iff h.base hplain' h.plainPath).mpr ⟨hmethod', hmatch⟩

theorem listed_extendRoute (env : RouterCrates T F) (base : String) (rs : List (Route F)) :
    Kept env ((new env base).extendRoute env rs) ∧ Listed env ((new env base).extendRoute env rs) :=
  ⟨extendRoute_invariant (fun _ r h => h.addRoute r) rs (kept_new base),
    (listed_new base).extendRoute rs⟩

theorem getRoute_nil (hroutes : s.routes = []) (path method : String) :
    s.getRoute env path method = none := by
  rw [getRoute, hroutes]
  rfl

theorem lookupsAgree_iff_no_routes (env : RouterCrates T F) (hcomplete : env.matchit.Complete)
    (base : String) (rs : List (Route F)) :
    ((∀ path method, ((new env base).extendRoute env rs).LookupsAgree env path method) ↔
      ((new env base).extendRoute env rs).routes = []) ∧
    ∀ path method, PlainLookup env ((new env base).extendRoute env rs) path method →
      ((new env base).extendRoute env rs).LookupsAgree env path method := by
  obtain ⟨hs, hlisted⟩ := listed_extendRoute env base rs
  generalize (new env base).extendRoute env rs = s at hs hlisted
  refine ⟨⟨fun hall => ?_, fun hroutes path method => ?_⟩,
    fun _ _ h => h.lookupsAgree hs hlisted hcomplete⟩
  · by_contra hne
    obtain ⟨r, hr⟩ := List.exists_mem_of_ne_nil _ hne
    obtain ⟨path, method, hdisagree⟩ := disagree_of_mem hs hlisted hcomplete hr
    exact hdisagree (hall path method)
  · rw [LookupsAgree, getRoute_nil hroutes]
    symm
    rw [Option.map_eq_none_iff, Option.eq_none_iff_forall_ne_some]
    rintro ⟨r, params⟩ hfind
    have hmem := hlisted.found hfind
    rw [hroutes] at hmem
    cases hmem

/-- A static route before one with a parameter. -/
theorem users_lookups_agree :
    ((new (asciiCrates Unit) "").extendRoute (asciiCrates Unit)
      [getUsers, ⟨"/:name", (), "get"⟩]).LookupsAgree (asciiCrates Unit) "/users" "GET" := by
  refine (lookupsAgree_iff_no_routes (asciiCrates Unit) (complete_tableMatchit _) "" _).2 _ _
    ⟨by decide, ?_, ?_, by decide⟩
  · unfold Route.Plain PlainPath
    decide
  · unfold PlainPath
    decide

theorem prefixed_route_not_got :
    ¬ ((new (asciiCrates Unit) "/api").extendRoute (asciiCrates Unit) [getUsers]).LookupsAgree
      (asciiCrates Unit) "/api/users" "GET" := by
  intro h
  cases h

end RouteStore

end Hypern.Routing
