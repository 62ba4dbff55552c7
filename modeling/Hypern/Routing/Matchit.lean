import Hypern.Http.Request
import Mathlib.Data.List.Lex

/-! The `matchit` crate as its documentation describes it: what a pattern means, and what
inserting into a tree and looking a path up in it do. -/

namespace Hypern.Routing

open Http

/-! ## Patterns -/

inductive Token
  | lit (c : Char)
  | param
  | catchAll
  deriving DecidableEq

/-- Where the reader of a pattern is; `closing` has seen one closing brace in the text. -/
inductive ReadMode
  | text | opened | closing
  | named (catchAll : Bool)

/-- A brace written twice is a literal brace, other braces enclose the name of a parameter. -/
def readTokens : List Char → ReadMode → Option (List Token)
  | [], .text => some []
  | [], _ => none
  | c :: cs, .text =>
    if c = '\x7b' then readTokens cs .opened
    else if c = '\x7d' then readTokens cs .closing
    else (readTokens cs .text).map (.lit c :: ·)
  | c :: cs, .closing =>
    if c = '\x7d' then (readTokens cs .text).map (.lit c :: ·) else none
  | c :: cs, .opened =>
    if c = '\x7b' then (readTokens cs .text).map (.lit c :: ·)
    else if c = '\x7d' then none
    else readTokens cs (.named (c = '*'))
  | c :: cs, .named catchAll =>
    if c = '\x7d' then
      (readTokens cs .text).map ((if catchAll then .catchAll else .param) :: ·)
    else readTokens cs (.named catchAll)

def tokens (pattern : String) : Option (List Token) := readTokens pattern.toList .text

/-- A parameter takes a non-empty part of one segment, a catch-all a non-empty rest. -/
def matchTokens : List Token → List Char → Bool
  | [], cs => cs.isEmpty
  | .lit _ :: _, [] => false
  | .lit c :: ts, d :: ds => c == d && matchTokens ts ds
  | .param :: ts, cs => (List.range cs.length).any fun n =>
      (cs.take (n + 1)).all (· != '/') && matchTokens ts (cs.drop (n + 1))
  | .catchAll :: ts, cs => ts.isEmpty && !cs.isEmpty

def Matches (pattern path : String) : Prop :=
  ∃ ts, tokens pattern = some ts ∧ matchTokens ts path.toList = true

/-- A catch-all stands only at the end. -/
def WellFormed (pattern : String) : Prop :=
  ∃ ts, tokens pattern = some ts ∧ Token.catchAll ∉ ts.dropLast

/-! ## Priority -/

def Token.rank : Token → Nat
  | .lit _ => 0
  | .param => 1
  | .catchAll => 2

/-- The kinds of the segments: static before parameter before catch-all. -/
def kinds (ts : List Token) : List Nat :=
  (ts.splitOn (.lit '/')).map fun segment => (segment.map Token.rank).foldr max 0

/-- Every segment is static, or one parameter and nothing else. -/
def PlainTokens (ts : List Token) : Prop :=
  ∀ segment ∈ ts.splitOn (.lit '/'), (∀ t ∈ segment, ∃ c, t = .lit c) ∨ segment = [.param]

def Plain (pattern : String) : Prop := ∃ ts, tokens pattern = some ts ∧ PlainTokens ts

def patternKinds (pattern : String) : List Nat := ((tokens pattern).map kinds).getD []

/-! ## Text after a parameter -/

/-- A parameter is followed by a slash, or nothing. -/
def suffixFree : List Token → Bool
  | [] => true
  | .param :: ts => ts.head?.all (· == .lit '/') && suffixFree ts
  | _ :: ts => suffixFree ts

def SuffixFree (pattern : String) : Prop := ∀ ts, tokens pattern = some ts → suffixFree ts = true

/-- Text in the segment behind a parameter, where the path has its first character too. -/
def startsSuffix (ts : List Token) (cs : List Char) : Bool :=
  match ts.head?, cs.head? with
  | some (.lit c), some d => c == d && c != '/'
  | _, _ => false

/-- The path agrees with the pattern up to a parameter and the text that follows it in its
segment. -/
def entersSuffix : List Token → List Char → Bool
  | .lit c :: ts, d :: ds => c == d && entersSuffix ts ds
  | .param :: ts, cs => (List.range cs.length).any fun n =>
      (cs.take (n + 1)).all (· != '/') &&
        (startsSuffix ts (cs.drop (n + 1)) || entersSuffix ts (cs.drop (n + 1)))
  | _, _ => false

def EntersSuffix (pattern path : String) : Prop :=
  ∃ ts, tokens pattern = some ts ∧ entersSuffix ts path.toList = true

theorem entersSuffix_of_suffixFree {ts : List Token} (h : suffixFree ts = true) (cs : List Char) :
    entersSuffix ts cs = false := by
  induction ts generalizing cs with
  | nil => rfl
  | cons t ts ih =>
    cases t with
    | lit c =>
      cases cs with
      | nil => rfl
      | cons d ds =>
        rw [entersSuffix, ih h, Bool.and_false]
    | param =>
      obtain ⟨hnext, htail⟩ := Bool.and_eq_true_iff.mp h
      have hsuffix : ∀ cs, startsSuffix ts cs = false := by
        intro cs
        unfold startsSuffix
        cases ts with
        | nil => rfl
        | cons t ts =>
          obtain rfl : t = .lit '/' := by simpa using hnext
          cases cs with
          | nil => rfl
          | cons d ds => simp
      rw [entersSuffix]
      simp [hsuffix, ih htail]
    | catchAll => rfl

theorem SuffixFree.not_entersSuffix {pattern : String} (h : SuffixFree pattern) (path : String) :
    ¬ EntersSuffix pattern path := by
  rintro ⟨ts, hts, henters⟩
  rw [entersSuffix_of_suffixFree (h ts hts)] at henters
  exact Bool.false_ne_true henters

theorem matchTokens_param {ts : List Token} {cs : List Char} :
    matchTokens (.param :: ts) cs = true ↔
      ∃ v rest, v ≠ [] ∧ '/' ∉ v ∧ cs = v ++ rest ∧ matchTokens ts rest = true := by
  simp only [matchTokens, List.any_eq_true, List.mem_range, Bool.and_eq_true, List.all_eq_true,
    bne_iff_ne, ne_eq]
  constructor
  · rintro ⟨n, hn, hslash, hrest⟩
    refine ⟨cs.take (n + 1), cs.drop (n + 1), ?_, fun h => hslash _ h rfl,
      (List.take_append_drop _ _).symm, hrest⟩
    exact List.ne_nil_of_length_pos (by rw [List.length_take]; omega)
  · rintro ⟨v, rest, hv, hslash, rfl, hrest⟩
    have hpos := List.length_pos_iff.mpr hv
    refine ⟨v.length - 1, by rw [List.length_append]; omega, ?_, ?_⟩
    · rw [Nat.sub_add_cancel hpos, List.take_left]
      exact fun c hc heq => hslash (heq ▸ hc)
    · rwa [Nat.sub_add_cancel hpos, List.drop_left]

/-! ## Trees -/

/-- `matchit::Router`: its operations on trees with values in `V`, what a tree holds, and
what the documentation says of them. -/
structure Matchit (T V : Type) where
  new : T
  insert : T → String → V → Except String Unit × T
  lookup : T → String → Option (V × StrMap)
  entries : T → List (String × V)
  entries_new : entries new = []
  mem_entries_insert {t : T} {p : String} {v : V} (h : (insert t p v).1 = .ok ())
    {e : String × V} : e ∈ entries (insert t p v).2 ↔ e ∈ entries t ∨ e = (p, v)
  /-- A failed insertion leaves the tree as it was. -/
  insert_error {t : T} {p : String} {v : V} {e : String} (h : (insert t p v).1 = .error e) :
    (insert t p v).2 = t
  insert_wellFormed {t : T} {p : String} {v : V} (h : (insert t p v).1 = .ok ()) : WellFormed p
  /-- A pattern that the tree holds already is a conflict. -/
  insert_fresh {t : T} {p : String} {v : V} (h : (insert t p v).1 = .ok ()) :
    ∀ e ∈ entries t, e.1 ≠ p
  lookup_sound {t : T} {path : String} {r : V × StrMap} (h : lookup t path = some r) :
    ∃ p, (p, r.1) ∈ entries t ∧ Matches p path
  /-- Among plain patterns the one with the more static segments, from the left, wins. -/
  lookup_first {t : T} {path : String} {r : V × StrMap} (h : lookup t path = some r)
    (hplain : ∀ e ∈ entries t, Plain e.1) :
    ∃ p, (p, r.1) ∈ entries t ∧ Matches p path ∧
      ∀ e ∈ entries t, Matches e.1 path → ¬ patternKinds e.1 < patternKinds p

/-- A path that a pattern of the tree matches is found. The search does not come back from the text
behind a parameter, so no pattern may lead it there. -/
def Matchit.Complete {T V : Type} (matchit : Matchit T V) : Prop :=
  ∀ (t : T) (path : String), (∀ e ∈ matchit.entries t, ¬ EntersSuffix e.1 path) →
    ∀ e ∈ matchit.entries t, Matches e.1 path → matchit.lookup t path ≠ none

/-! ## A table of patterns

The same behaviour without a tree: the entries in the order of insertion. -/

namespace Table

variable {V : Type}

def matchesPath (path : String) (e : String × V) : Bool :=
  (tokens e.1).any (matchTokens · path.toList)

def acceptable (t : List (String × V)) (p : String) : Bool :=
  (tokens p).any (fun ts => !ts.dropLast.contains .catchAll) && t.all (·.1 != p)

def insert (t : List (String × V)) (p : String) (v : V) : Except String Unit × List (String × V) :=
  if acceptable t p then (.ok (), t ++ [(p, v)]) else (.error "conflict", t)

def best (path : String) : List (String × V) → Option (String × V)
  | [] => none
  | e :: t =>
    if matchesPath path e then
      match best path t with
      | none => some e
      | some e' => if patternKinds e'.1 < patternKinds e.1 then some e' else some e
    else best path t

def lookup (t : List (String × V)) (path : String) : Option (V × StrMap) :=
  (best path t).map fun e => (e.2, ∅)

theorem matchesPath_iff {path : String} {e : String × V} :
    matchesPath path e = true ↔ Matches e.1 path := by
  simp [matchesPath, Matches, Option.any_eq_true]

theorem acceptable_of_ok {t : List (String × V)} {p : String} {v : V}
    (h : (insert t p v).1 = .ok ()) : acceptable t p = true := by
  unfold insert at h
  split_ifs at h with hacc
  exact hacc

theorem insert_ok {t : List (String × V)} {p : String} {v : V} (h : (insert t p v).1 = .ok ()) :
    (insert t p v).2 = t ++ [(p, v)] := by
  rw [insert, if_pos (acceptable_of_ok h)]

theorem best_ne_none {path : String} {t : List (String × V)} {e : String × V} (he : e ∈ t)
    (hmatch : Matches e.1 path) : best path t ≠ none := by
  induction t with
  | nil => cases he
  | cons d t ih =>
    unfold best
    split_ifs with hd
    · cases best path t with
      | none => simp
      | some b =>
        dsimp only
        split_ifs <;> simp
    · rcases List.mem_cons.mp he with rfl | he
      · exact absurd (matchesPath_iff.mpr hmatch) hd
      · exact ih he

theorem best_spec {path : String} {t : List (String × V)} {e : String × V}
    (h : best path t = some e) :
    e ∈ t ∧ Matches e.1 path ∧
      ∀ e' ∈ t, Matches e'.1 path → ¬ patternKinds e'.1 < patternKinds e.1 := by
  induction t generalizing e with
  | nil => cases h
  | cons d t ih =>
    unfold best at h
    split_ifs at h with hd
    · cases hbest : best path t with
      | none =>
        rw [hbest] at h
        cases h
        refine ⟨List.mem_cons_self, matchesPath_iff.mp hd, fun e' he' hmatch hlt => ?_⟩
        rcases List.mem_cons.mp he' with rfl | he'
        · exact lt_irrefl _ hlt
        · exact best_ne_none he' hmatch hbest
      | some b =>
        obtain ⟨hb, hbmatch, hbest'⟩ := ih hbest
        rw [hbest] at h
        dsimp only at h
        split_ifs at h with hlt
        · cases h
          refine ⟨List.mem_cons_of_mem _ hb, hbmatch, fun e' he' hmatch => ?_⟩
          rcases List.mem_cons.mp he' with rfl | he'
          · exact lt_asymm hlt
          · exact hbest' e' he' hmatch
        · cases h
          refine ⟨List.mem_cons_self, matchesPath_iff.mp hd, fun e' he' hmatch hlt' => ?_⟩
          rcases List.mem_cons.mp he' with rfl | he'
          · exact lt_irrefl _ hlt'
          · exact hbest' e' he' hmatch (lt_of_lt_of_le hlt' (not_lt.mp hlt))
    · obtain ⟨he, hmatch, hfirst⟩ := ih h
      refine ⟨List.mem_cons_of_mem _ he, hmatch, fun e' he' hmatch' => ?_⟩
      rcases List.mem_cons.mp he' with rfl | he'
      · exact absurd (matchesPath_iff.mpr hmatch') hd
      · exact hfirst e' he' hmatch'

end Table

def tableMatchit (V : Type) : Matchit (List (String × V)) V where
  new := []
  insert := Table.insert
  lookup := Table.lookup
  entries := id
  entries_new := rfl
  mem_entries_insert h := by
    rw [Table.insert_ok h]
    simp
  insert_error {t p v e} h := by
    change (Table.insert t p v).1 = _ at h
    unfold Table.insert at h ⊢
    split_ifs at h ⊢
    rfl
  insert_wellFormed h := by
    have hacc := Table.acceptable_of_ok h
    rw [Table.acceptable, Bool.and_eq_true, Option.any_eq_true] at hacc
    obtain ⟨⟨ts, hts, hlast⟩, -⟩ := hacc
    exact ⟨ts, hts, by simpa using hlast⟩
  insert_fresh h e he := by
    have hacc := Table.acceptable_of_ok h
    rw [Table.acceptable, Bool.and_eq_true, List.all_eq_true] at hacc
    exact bne_iff_ne.mp (hacc.2 e he)
  lookup_sound h := by
    obtain ⟨e, he, rfl⟩ := Option.map_eq_some_iff.mp h
    exact ⟨e.1, (Table.best_spec he).1, (Table.best_spec he).2.1⟩
  lookup_first h hplain := by
    obtain ⟨e, he, rfl⟩ := Option.map_eq_some_iff.mp h
    exact ⟨e.1, Table.best_spec he⟩

theorem complete_tableMatchit (V : Type) : (tableMatchit V).Complete :=
  fun _ _ _ _ he hmatch hnone =>
    Table.best_ne_none he hmatch (Option.map_eq_none_iff.mp hnone)

end Hypern.Routing
