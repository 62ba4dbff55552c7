import Hypern.Lib.Ascii
import Hypern.Lib.Dict
import Hypern.Lib.Words

/-! The case conversion of `str_utils.rs`, and of the keys of a dictionary. -/

namespace Hypern.Utils

open Lib

/-! ## The scanners -/

/-- The Unicode tables of `char` beyond ASCII. -/
structure CaseTables where
  isUppercase : Char → Bool
  isLowercase : Char → Bool
  toUppercase : Char → List Char
  toLowercase : Char → List Char

section

variable (tables : CaseTables)

def isUppercase (ch : Char) : Bool := if ch.toNat < 128 then ch.isUpper else tables.isUppercase ch

def isLowercase (ch : Char) : Bool := if ch.toNat < 128 then ch.isLower else tables.isLowercase ch

def toUppercase (ch : Char) : List Char :=
  if ch.toNat < 128 then [ch.toUpper] else tables.toUppercase ch

def toLowercase (ch : Char) : List Char :=
  if ch.toNat < 128 then [ch.toLower] else tables.toLowercase ch

def camelFrom : (capNext : Bool) → List Char → List Char
  | _, [] => []
  | capNext, ch :: rest =>
    if ch = '_' then camelFrom true rest
    else if capNext then toUppercase tables ch ++ camelFrom false rest
    else ch :: camelFrom capNext rest

def snakeToCamel (text : String) (upperFirst : Bool) : String :=
  String.ofList (camelFrom tables upperFirst text.toList)

/-- `prev` is the character before; the one behind is the head of the rest. -/
def snakeFrom : (prev : Option Char) → List Char → List Char
  | _, [] => []
  | prev, ch :: rest =>
    if isUppercase tables ch then
      let prevLower := prev.any (isLowercase tables)
      let nextLower := rest.head?.any (isLowercase tables)
      (if prev.isSome && (prevLower || nextLower) then ['_'] else []) ++
        (toLowercase tables ch ++ snakeFrom (some ch) rest)
    else ch :: snakeFrom (some ch) rest

def camelToSnake (text : String) : String := String.ofList (snakeFrom tables none text.toList)

variable {V : Type}

def keysToCamel (data : Dict String V) (upperFirst : Bool) : Dict String V :=
  data.mapKeys fun key => snakeToCamel tables key upperFirst

def keysToSnake (data : Dict String V) : Dict String V := data.mapKeys (camelToSnake tables)

end

/-! ## Snake-case identifiers -/

def IsLetter (c : Char) : Prop := c.isLower = true

/-- `[a-z]+(_[a-z]+)*` -/
def SnakeCase (key : String) : Prop := Delimited IsLetter '_' key.toList

/-- Of two neighbours among the words behind the first one at least one has two letters. -/
def Separable (key : String) : Prop :=
  (key.toList.splitOn '_').tail.IsChain fun u w => 2 ≤ u.length ∨ 2 ≤ w.length

instance (key : String) : Decidable (Separable key) := by
  unfold Separable
  infer_instance

def capitalize : List Char → List Char
  | [] => []
  | c :: w => c.toUpper :: w

/-- What is left of the words behind the first one: an underscore is lost between two single
letters. -/
def respell : (prevLower : Bool) → List (List Char) → List Char
  | _, [] => []
  | prevLower, w :: words =>
    (if prevLower || decide (2 ≤ w.length) then '_' :: w else w) ++
      respell (decide (2 ≤ w.length)) words

variable {tables : CaseTables} {c : Char} {w rest : List Char} {words : List (List Char)}

theorem camelFrom_letters (h : ∀ c ∈ w, IsLetter c) (rest : List Char) :
    camelFrom tables false (w ++ rest) = w ++ camelFrom tables false rest := by
  induction w with
  | nil => rfl
  | cons c w ih =>
    obtain ⟨hc, hw⟩ := List.forall_mem_cons.mp h
    have hne : c ≠ '_' := (toUpper_of_isLower hc).2.2.2.2
    simp [camelFrom, hne, ih hw]

theorem camelFrom_words (h : ∀ w ∈ words, IsWord IsLetter w) :
    camelFrom tables false (words.flatMap ('_' :: ·)) = words.flatMap capitalize := by
  induction words with
  | nil => rfl
  | cons w words ih =>
    obtain ⟨⟨hne, hw⟩, hwords⟩ := List.forall_mem_cons.mp h
    obtain ⟨c, v, rfl⟩ := List.exists_cons_of_ne_nil hne
    obtain ⟨hc, hv⟩ := List.forall_mem_cons.mp hw
    have hne : c ≠ '_' := (toUpper_of_isLower hc).2.2.2.2
    have hupper : toUppercase tables c = [c.toUpper] := if_pos (ascii_of_isLower hc)
    simp [camelFrom, hne, hupper, capitalize, camelFrom_letters hv, ih hwords]

/-! ## The way back -/

theorem isLowercase_letter (hc : IsLetter c) : isLowercase tables c = true := by
  rw [isLowercase, if_pos (ascii_of_isLower hc)]
  exact hc

theorem isUppercase_letter (hc : IsLetter c) : isUppercase tables c = false := by
  rw [isUppercase, if_pos (ascii_of_isLower hc)]
  exact (toUpper_of_isLower hc).2.2.2.1

theorem capital (hc : IsLetter c) : isUppercase tables c.toUpper = true ∧
    isLowercase tables c.toUpper = false ∧ toLowercase tables c.toUpper = [c] := by
  obtain ⟨hupper, hlower, hback, -⟩ := toUpper_of_isLower hc
  have hascii := ascii_of_isUpper hupper
  simp [isUppercase, isLowercase, toLowercase, hascii, hupper, hlower, hback]

theorem snakeFrom_letters (h : ∀ c ∈ w, IsLetter c) (prev : Option Char) (rest : List Char) :
    snakeFrom tables prev (w ++ rest) = w ++ snakeFrom tables (w.getLast?.or prev) rest := by
  induction w generalizing prev with
  | nil => rfl
  | cons c w ih =>
    obtain ⟨hc, hw⟩ := List.forall_mem_cons.mp h
    have hlast : w.getLast?.or (some c) = ((c :: w).getLast?).or prev := by
      rw [List.getLast?_cons]
      cases w.getLast? <;> rfl
    simp [snakeFrom, isUppercase_letter hc, ih hw, hlast]

/-- What follows a word starts with a capital or is empty. -/
theorem head_capitals (h : ∀ w ∈ words, IsWord IsLetter w) :
    (words.flatMap capitalize).head?.any (isLowercase tables) = false := by
  cases words with
  | nil => rfl
  | cons w words =>
    obtain ⟨⟨hne, hw⟩, -⟩ := List.forall_mem_cons.mp h
    obtain ⟨c, v, rfl⟩ := List.exists_cons_of_ne_nil hne
    simp [capitalize, (capital (hw c List.mem_cons_self)).2.1]

/-- The character behind which the next word starts. -/
theorem exists_last {prev : Char} (hlower : isLowercase tables prev = false)
    (h : ∀ c ∈ w, IsLetter c) :
    ∃ last, w.getLast?.or (some prev) = some last ∧
      isLowercase tables last = decide (2 ≤ w.length + 1) := by
  rcases List.eq_nil_or_concat w with rfl | ⟨v, last, rfl⟩
  · exact ⟨prev, rfl, hlower⟩
  · have hlast : IsLetter last := h last (by simp)
    exact ⟨last, by simp, by simp [isLowercase_letter hlast]⟩

theorem snakeFrom_words (h : ∀ w ∈ words, IsWord IsLetter w) {prev : Char} :
    snakeFrom tables (some prev) (words.flatMap capitalize) =
      respell (isLowercase tables prev) words := by
  induction words generalizing prev with
  | nil => rfl
  | cons w words ih =>
    obtain ⟨⟨hne, hw⟩, hwords⟩ := List.forall_mem_cons.mp h
    obtain ⟨c, v, rfl⟩ := List.exists_cons_of_ne_nil hne
    obtain ⟨hc, hv⟩ := List.forall_mem_cons.mp hw
    obtain ⟨hupper, hlower, hback⟩ := @capital tables c hc
    -- a word of one letter is followed by a capital or by nothing
    have hnext : (v ++ words.flatMap capitalize).head?.any (isLowercase tables) =
        decide (2 ≤ (c :: v).length) := by
      cases v with
      | nil => simpa using head_capitals hwords
      | cons d v => simp [isLowercase_letter (hv d List.mem_cons_self)]
    obtain ⟨last, hlast, hlastLower⟩ := exists_last hlower hv
    have hrest := @ih hwords last
    rw [List.flatMap_cons, capitalize, List.cons_append, snakeFrom, if_pos hupper, hnext, hback,
      snakeFrom_letters hv, hlast, hrest, hlastLower, respell, List.length_cons]
    simp only [Option.isSome_some, Bool.true_and, Option.any_some]
    split_ifs <;> simp

/-! ## What is lost -/

theorem respell_or_shorter (prevLower : Bool) (words : List (List Char)) :
    respell prevLower words = words.flatMap ('_' :: ·) ∨
      (respell prevLower words).length < (words.flatMap ('_' :: ·)).length := by
  induction words generalizing prevLower with
  | nil => exact .inl rfl
  | cons w words ih =>
    have hrest := ih (decide (2 ≤ w.length))
    simp only [respell, List.flatMap_cons]
    by_cases hkept : (prevLower || decide (2 ≤ w.length)) = true
    · rw [if_pos hkept]
      rcases hrest with hsame | hshorter
      · exact .inl (by rw [hsame])
      · exact .inr (by simpa using hshorter)
    · rw [if_neg hkept]
      have hle : (respell (decide (2 ≤ w.length)) words).length ≤
          (words.flatMap ('_' :: ·)).length := hrest.elim (fun h => by rw [h]) le_of_lt
      exact .inr (by simp only [List.length_append, List.length_cons]; omega)

theorem respell_eq_iff (prevLower : Bool) (words : List (List Char)) :
    respell prevLower words = words.flatMap ('_' :: ·) ↔
      (prevLower = true ∨ ∀ w ∈ words.head?, 2 ≤ w.length) ∧
        words.IsChain fun u w => 2 ≤ u.length ∨ 2 ≤ w.length := by
  induction words generalizing prevLower with
  | nil => simp [respell]
  | cons w words ih =>
    have hrest := ih (decide (2 ≤ w.length))
    have hhead : (∀ u ∈ (w :: words).head?, 2 ≤ u.length) ↔ 2 ≤ w.length := by simp
    rw [List.isChain_cons, hhead]
    by_cases hkept : prevLower = true ∨ 2 ≤ w.length
    · have hword : respell prevLower (w :: words) =
          ('_' :: w) ++ respell (decide (2 ≤ w.length)) words := by
        rw [respell, if_pos (by simpa using hkept)]
      have hchain : (∀ u ∈ words.head?, 2 ≤ w.length ∨ 2 ≤ u.length) ↔
          2 ≤ w.length ∨ ∀ u ∈ words.head?, 2 ≤ u.length := by
        simp only [forall_or_left]
      rw [hword, List.flatMap_cons, List.append_cancel_left_eq, hrest, hchain, decide_eq_true_eq]
      exact (and_iff_right hkept).symm
    · have hlost : respell prevLower (w :: words) =
          w ++ respell (decide (2 ≤ w.length)) words := by
        rw [respell, if_neg (by simpa using hkept)]
      refine iff_of_false (fun hsame => ?_) fun h => hkept h.1
      have hlength := congrArg List.length hsame
      rw [hlost, List.flatMap_cons, List.length_append, List.length_append, List.length_cons]
        at hlength
      rcases respell_or_shorter (decide (2 ≤ w.length)) words with hrest | hrest
      · rw [hrest] at hlength
        omega
      · omega

/-- A snake-case key, there and back. -/
theorem exists_respelled {key : String} (h : SnakeCase key) :
    ∃ first words, key.toList = joinWords '_' first words ∧
      (Separable key ↔ words.IsChain fun u w => 2 ≤ u.length ∨ 2 ≤ w.length) ∧
      (camelToSnake tables (snakeToCamel tables key false)).toList = first ++ respell true words := by
  obtain ⟨first, words, hfirst, hwords, hkey⟩ := h
  have hsep : ¬ IsLetter '_' := by simp [IsLetter, Char.isLower]
  have hsplit : key.toList.splitOn '_' = first :: words := by
    rw [hkey]
    exact splitOn_joinWords (notMem_of_isWord hsep hfirst)
      fun w hw => notMem_of_isWord hsep (hwords w hw)
  refine ⟨first, words, hkey, by rw [Separable, hsplit, List.tail_cons], ?_⟩
  have hcamel : (snakeToCamel tables key false).toList = first ++ words.flatMap capitalize := by
    rw [snakeToCamel, String.toList_ofList, hkey, joinWords, camelFrom_letters hfirst.2,
      camelFrom_words hwords]
  obtain ⟨before, last, hlast⟩ : ∃ before last, first = before ++ [last] :=
    ⟨_, _, (List.dropLast_append_getLast hfirst.1).symm⟩
  have hlower : isLowercase tables last = true :=
    isLowercase_letter (hfirst.2 last (by simp [hlast]))
  have hbehind : first.getLast?.or none = some last := by simp [hlast]
  rw [camelToSnake, String.toList_ofList, hcamel, snakeFrom_letters hfirst.2, hbehind,
    snakeFrom_words hwords, hlower]

/-- A key comes back, or something shorter does. -/
theorem there_and_back {key : String} (h : SnakeCase key) :
    (camelToSnake tables (snakeToCamel tables key false) = key ↔ Separable key) ∧
      (camelToSnake tables (snakeToCamel tables key false) = key ∨
        (camelToSnake tables (snakeToCamel tables key false)).length < key.length) := by
  obtain ⟨first, words, hkey, hseparable, hback⟩ := @exists_respelled tables key h
  have hsame : camelToSnake tables (snakeToCamel tables key false) = key ↔
      respell true words = words.flatMap ('_' :: ·) := by
    rw [← String.toList_inj, hback, hkey, joinWords, List.append_cancel_left_eq]
  refine ⟨?_, ?_⟩
  · rw [hsame, respell_eq_iff, hseparable]
    simp
  · rw [hsame, ← String.length_toList, ← String.length_toList, hback, hkey, joinWords,
      List.length_append, List.length_append]
    exact (respell_or_shorter true words).imp id (Nat.add_lt_add_left · _)

/-! ## Dictionaries -/

/-- A dictionary with snake-case keys comes back exactly when none of them has two neighbouring
one-letter words behind its first word. -/
theorem keysToSnake_keysToCamel_iff {V : Type} (tables : CaseTables) (d : Dict String V)
    (h : ∀ key ∈ d.keys, SnakeCase key) :
    (keysToSnake tables (keysToCamel tables d false)).Equal d ↔ ∀ key ∈ d.keys, Separable key := by
  constructor
  · intro hequal
    have hcovers : ∀ key ∈ d.keys, ∃ k ∈ d.keys,
        camelToSnake tables (snakeToCamel tables k false) = key := by
      intro key hkey
      obtain ⟨camel, hcamel, rfl⟩ := (Dict.mem_keys_mapKeys _ _).mp (hequal.mem_keys_iff.mpr hkey)
      obtain ⟨k, hk, rfl⟩ := (Dict.mem_keys_mapKeys _ _).mp hcamel
      exact ⟨k, hk, rfl⟩
    have hfixed := fixed_of_covers (fun key hkey => (there_and_back (h key hkey)).2) hcovers
    exact fun key hkey => (there_and_back (h key hkey)).1.mp (hfixed key hkey)
  · intro hseparable
    have hback : ∀ key ∈ d.keys, camelToSnake tables (snakeToCamel tables key false) = key :=
      fun key hkey => (there_and_back (h key hkey)).1.mpr (hseparable key hkey)
    have hsame : keysToSnake tables (keysToCamel tables d false) = d := Dict.mapKeys_mapKeys hback
    rw [hsame]
    exact fun _ => rfl

/-- Tables that know ASCII only. -/
def asciiTables : CaseTables where
  isUppercase _ := false
  isLowercase _ := false
  toUppercase ch := [ch]
  toLowercase ch := [ch]

theorem snakeCase_of_words {key : String} (first : List Char) (words : List (List Char))
    (hkey : key.toList = joinWords '_' first words)
    (h : (first :: words).all (fun w => !w.isEmpty && w.all Char.isLower) = true) :
    SnakeCase key := by
  have hwords : ∀ w ∈ first :: words, IsWord IsLetter w := by
    simpa [IsWord, IsLetter] using h
  exact ⟨first, words, hwords first List.mem_cons_self,
    fun w hw => hwords w (List.mem_cons_of_mem _ hw), hkey⟩

/-- `a_b_c` becomes `aBC`, and `aBC` becomes `a_bc`, which another key may have been. -/
theorem acronym_merges_keys : ∃ d : Dict String ℕ, d.keys = ["a_b_c", "a_bc"] ∧
    (∀ key ∈ d.keys, SnakeCase key) ∧
    (keysToSnake asciiTables (keysToCamel asciiTables d false)).keys = ["a_bc"] ∧
    ¬ (keysToSnake asciiTables (keysToCamel asciiTables d false)).Equal d := by
  have hlost : SnakeCase "a_b_c" :=
    snakeCase_of_words ['a'] [['b'], ['c']] (by decide) (by decide)
  have hkept : SnakeCase "a_bc" := snakeCase_of_words ['a'] [['b', 'c']] (by decide) (by decide)
  refine ⟨⟨[("a_b_c", 1), ("a_bc", 2)], by decide⟩, rfl, ?_, by decide, ?_⟩
  · exact List.forall_mem_cons.mpr ⟨hlost, List.forall_mem_singleton.mpr hkept⟩
  · exact fun hequal => absurd (hequal "a_b_c") (by decide)

theorem user_names_come_back : ∃ d : Dict String ℕ, d.keys = ["user_first_name", "a_b"] ∧
    (keysToSnake asciiTables (keysToCamel asciiTables d false)).Equal d := by
  have hname : SnakeCase "user_first_name" := snakeCase_of_words ['u', 's', 'e', 'r']
    [['f', 'i', 'r', 's', 't'], ['n', 'a', 'm', 'e']] (by decide) (by decide)
  have hshort : SnakeCase "a_b" := snakeCase_of_words ['a'] [['b']] (by decide) (by decide)
  have hkeys : ∀ key ∈ ["user_first_name", "a_b"], SnakeCase key :=
    List.forall_mem_cons.mpr ⟨hname, List.forall_mem_singleton.mpr hshort⟩
  refine ⟨⟨[("user_first_name", 1), ("a_b", 2)], by decide⟩, rfl, ?_⟩
  refine (keysToSnake_keysToCamel_iff asciiTables _ ?_).mpr ?_
  · exact hkeys
  · show ∀ key ∈ ["user_first_name", "a_b"], Separable key
    decide

end Hypern.Utils
