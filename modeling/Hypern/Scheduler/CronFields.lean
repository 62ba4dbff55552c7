import Hypern.Lib.Fallible
import Hypern.Lib.Text
import Hypern.Python.Numeral
import Mathlib.Data.Finset.Union
import Mathlib.Order.Interval.Set.Defs
import Mathlib.Data.Int.ConditionallyCompleteOrder
import Mathlib.Order.ConditionallyCompleteLattice.Basic

/-! The fields of a cron expression: what `_parse_field` makes of a text, beside the language that
the docstring of the class describes. -/

namespace Hypern.Scheduler

open Lib Python

/-- The least and the greatest value of a field. -/
structure FieldBounds where
  lo : ℤ
  hi : ℤ
  le : lo ≤ hi

/-- One turn of the loop of `_parse_field`. -/
def updateField (py : Interpreter) (b : FieldBounds) (values : Finset ℤ) (part : List Char) :
    Except PyExc (Finset ℤ) :=
  let part := strip part
  if part = ['*'] then do
    let new ← range b.lo (b.hi + 1) 1
    return values ∪ new.toFinset
  else if ['*', '/'].isPrefixOf part then do
    let step ← py.int (part.drop 2)
    let new ← range b.lo (b.hi + 1) step
    return values ∪ new.toFinset
  else
    match splitOnce '-' part with
    | some (start, stop) => do
      let start ← py.int start
      let stop ← py.int stop
      let new ← range start (stop + 1) 1
      return values ∪ new.toFinset
    | none => do
      let value ← py.int part
      return insert value values

def parseField (py : Interpreter) (b : FieldBounds) (field : List Char) :
    Except PyExc (Finset ℤ) :=
  (field.splitOn ',').foldlM (updateField py b) ∅

/-! ## The language -/

/-- `*`, `*/n`, `n` and `n-m`. -/
inductive CronItem
  | any
  | step (n : ℤ)
  | value (n : ℤ)
  | range (n m : ℤ)
  deriving DecidableEq

namespace CronItem

variable (b : FieldBounds)

/-- The values between the bounds that an item stands for. -/
def denotes : CronItem → Set ℤ
  | .any => Set.Icc b.lo b.hi
  | .step n => {v ∈ Set.Icc b.lo b.hi | 0 < n ∧ n ∣ v - b.lo}
  | .value n => {v ∈ Set.Icc b.lo b.hi | v = n}
  | .range n m => {v ∈ Set.Icc b.lo b.hi | n ≤ v ∧ v ≤ m}

def Valid : CronItem → Prop
  | .any => True
  | .step n => 1 ≤ n
  | .value n => b.lo ≤ n ∧ n ≤ b.hi
  | .range n m => b.lo ≤ n ∧ n ≤ m ∧ m ≤ b.hi

/-- The item stands for a value between the bounds. -/
def Meets : CronItem → Prop
  | .any => True
  | .step n => 0 < n
  | .value n => b.lo ≤ n ∧ n ≤ b.hi
  | .range n m => n ≤ m ∧ n ≤ b.hi ∧ b.lo ≤ m

end CronItem

/-- A number in decimal digits. -/
structure Numeral (s : List Char) (n : ℤ) : Prop where
  ne_nil : s ≠ []
  digits : ∀ c ∈ s, c.isDigit = true
  value : (Nat.ofDigitChars 10 s 0 : ℤ) = n

inductive Spells : List Char → CronItem → Prop
  | any : Spells ['*'] .any
  | step {s : List Char} {n : ℤ} (h : Numeral s n) : Spells ('*' :: '/' :: s) (.step n)
  | value {s : List Char} {n : ℤ} (h : Numeral s n) : Spells s (.value n)
  | range {s s' : List Char} {n m : ℤ} (h : Numeral s n) (h' : Numeral s' m) :
    Spells (s ++ '-' :: s') (.range n m)

/-- The field is a list of these items. The blanks around an item do not belong to it. -/
def Lists (field : List Char) (items : List CronItem) : Prop :=
  List.Forall₂ (fun part item => Spells (strip part) item) (field.splitOn ',') items

def Grammatical (b : FieldBounds) (field : List Char) : Prop :=
  ∃ items, Lists field items ∧ ∀ item ∈ items, item.Valid b

/-- What a list of items stands for. -/
def denoted (b : FieldBounds) (items : List CronItem) : Set ℤ :=
  {v | ∃ item ∈ items, v ∈ item.denotes b}

/-- A field of the language is read as what it stands for, and any other raises `ValueError`. -/
structure ParsesExactly (py : Interpreter) (b : FieldBounds) (field : List Char) : Prop where
  accepts : ∀ items, Lists field items → (∀ item ∈ items, item.Valid b) →
    ∃ values, parseField py b field = .ok values ∧ values.Nonempty ∧
      (values : Set ℤ) = denoted b items
  rejects : ¬ Grammatical b field →
    ∃ e, parseField py b field = .error e ∧ e.isInstance "ValueError" = true

/-! ## What is read -/

/-- The same forms, with whatever `int` reads for a number. A `*` alone, a leading `*/` and a hyphen
are looked for in this order, and the first hyphen ends the first number. -/
inductive Reads (py : Interpreter) : List Char → CronItem → Prop
  | any : Reads py ['*'] .any
  | step {s : List Char} {n : ℤ} (h : py.int s = .ok n) (hzero : n ≠ 0) :
    Reads py ('*' :: '/' :: s) (.step n)
  | range {s s' : List Char} {n m : ℤ} (hstep : ¬ ['*', '/'] <+: s ++ '-' :: s') (hfirst : '-' ∉ s)
    (h : py.int s = .ok n) (h' : py.int s' = .ok m) : Reads py (s ++ '-' :: s') (.range n m)
  | value {s : List Char} {n : ℤ} (hany : s ≠ ['*']) (hstep : ¬ ['*', '/'] <+: s) (hrange : '-' ∉ s)
    (h : py.int s = .ok n) : Reads py s (.value n)

/-- The field is read as these items. -/
def ReadAs (py : Interpreter) (field : List Char) (items : List CronItem) : Prop :=
  List.Forall₂ (fun part item => Reads py (strip part) item) (field.splitOn ',') items

/-- `int` reads every number of the field, and no step is zero. -/
def Readable (py : Interpreter) (field : List Char) : Prop := ∃ items, ReadAs py field items

/-- The item that a text is read as. -/
def readItem (py : Interpreter) (part : List Char) : Except PyExc CronItem :=
  if part = ['*'] then .ok .any
  else if ['*', '/'].isPrefixOf part then do
    let n ← py.int (part.drop 2)
    if n = 0 then .error (valueError "range() arg 3 must not be zero") else .ok (.step n)
  else
    match splitOnce '-' part with
    | some (start, stop) => do
      let n ← py.int start
      let m ← py.int stop
      return .range n m
    | none => (py.int part).map .value

def readField (py : Interpreter) (field : List Char) : Except PyExc (List CronItem) :=
  (field.splitOn ',').mapM fun part => readItem py (strip part)

namespace CronItem

variable (b : FieldBounds)

/-- What an item adds to the values of its field. -/
def values : CronItem → Finset ℤ
  | .any => (rangeItems b.lo (b.hi + 1) 1).toFinset
  | .step n => (rangeItems b.lo (b.hi + 1) n).toFinset
  | .value n => {n}
  | .range n m => (rangeItems n (m + 1) 1).toFinset

variable {b} {item : CronItem} {v : ℤ}

theorem mem_values_range {n m : ℤ} : v ∈ (CronItem.range n m).values b ↔ n ≤ v ∧ v ≤ m := by
  unfold values
  rw [List.mem_toFinset, mem_rangeItems Int.one_pos]
  constructor
  · rintro ⟨hn, hm, -⟩
    exact ⟨hn, Int.le_of_lt_add_one hm⟩
  · rintro ⟨hn, hm⟩
    exact ⟨hn, Int.lt_add_one_of_le hm, one_dvd _⟩

theorem mem_values_step {n : ℤ} : v ∈ (CronItem.step n).values b ↔
    (b.lo ≤ v ∧ v ≤ b.hi) ∧ 0 < n ∧ n ∣ v - b.lo := by
  have hle := b.le
  unfold values
  rw [List.mem_toFinset]
  rcases Int.lt_trichotomy n 0 with hneg | hzero | hpos
  · rw [rangeItems_of_neg hneg (by omega)]
    exact iff_of_false List.not_mem_nil fun h => by omega
  · subst hzero
    have hempty : rangeItems b.lo (b.hi + 1) 0 = [] := by
      unfold rangeItems rangeLength
      simp
    rw [hempty]
    exact iff_of_false List.not_mem_nil fun h => by omega
  · rw [mem_rangeItems hpos]
    constructor
    · rintro ⟨hlo, hhi, hdvd⟩
      exact ⟨⟨hlo, Int.le_of_lt_add_one hhi⟩, hpos, hdvd⟩
    · rintro ⟨⟨hlo, hhi⟩, -, hdvd⟩
      exact ⟨hlo, Int.lt_add_one_of_le hhi, hdvd⟩

/-- Between the bounds an item adds what it stands for. -/
theorem mem_values_iff (hv : v ∈ Set.Icc b.lo b.hi) : v ∈ item.values b ↔ v ∈ item.denotes b := by
  cases item with
  | any => exact (mem_values_range (b := b)).trans (by rfl)
  | step n => exact mem_values_step
  | value n => exact Finset.mem_singleton.trans (and_iff_right hv).symm
  | range n m => exact mem_values_range.trans (and_iff_right hv).symm

theorem Valid.mem_bounds (h : item.Valid b) (hv : v ∈ item.values b) : v ∈ Set.Icc b.lo b.hi := by
  cases item with
  | any => exact (mem_values_range (b := b)).mp hv
  | step n => exact (mem_values_step.mp hv).1
  | value n => exact Finset.mem_singleton.mp hv ▸ h
  | range n m =>
    obtain ⟨hn, hm⟩ := mem_values_range.mp hv
    exact ⟨h.1.trans hn, hm.trans h.2.2⟩

theorem denotes_subset (hv : v ∈ item.denotes b) : v ∈ Set.Icc b.lo b.hi := by
  cases item with
  | any => exact hv
  | step n => exact hv.1
  | value n => exact hv.1
  | range n m => exact hv.1

theorem nonempty_iff_meets : (item.denotes b).Nonempty ↔ item.Meets b := by
  have hle := b.le
  cases item with
  | any => exact iff_of_true ⟨b.lo, le_refl _, hle⟩ trivial
  | step n =>
    constructor
    · rintro ⟨v, -, hn, -⟩
      exact hn
    · intro hn
      exact ⟨b.lo, ⟨le_refl _, hle⟩, hn, by rw [Int.sub_self]; exact Int.dvd_zero n⟩
  | value n =>
    constructor
    · rintro ⟨v, hv, rfl⟩
      exact hv
    · intro hn
      exact ⟨n, hn, rfl⟩
  | range n m =>
    constructor
    · rintro ⟨v, ⟨hlo, hhi⟩, hn, hm⟩
      exact ⟨hn.trans hm, hn.trans hhi, hlo.trans hm⟩
    · rintro ⟨hnm, hn, hm⟩
      exact ⟨max n b.lo, ⟨le_max_right .., max_le hn hle⟩, le_max_left .., max_le hnm hm⟩

theorem Valid.meets (h : item.Valid b) : item.Meets b := by
  cases item with
  | any => trivial
  | step n => exact h
  | value n => exact h
  | range n m => exact ⟨h.2.1, h.2.1.trans h.2.2, h.1.trans h.2.1⟩

end CronItem

variable {py : Interpreter} {b : FieldBounds} {part field : List Char} {item : CronItem}
  {items : List CronItem} {e : PyExc}

theorem reads_of_readItem (h : readItem py part = .ok item) : Reads py part item := by
  unfold readItem at h
  split_ifs at h with hany hstep
  · cases h
    exact hany ▸ .any
  · obtain ⟨n, hn, h⟩ := bind_eq_ok h
    split_ifs at h with hzero
    cases h
    obtain ⟨s, rfl⟩ := List.isPrefixOf_iff_prefix.mp hstep
    exact .step hn hzero
  · rw [List.isPrefixOf_iff_prefix] at hstep
    -- the hyphen that ends the first number is the first one
    cases hsplit : splitOnce '-' part with
    | some numbers =>
      rw [hsplit] at h
      obtain ⟨n, hn, h⟩ := bind_eq_ok h
      obtain ⟨m, hm, h⟩ := bind_eq_ok h
      cases h
      obtain ⟨rfl, hfirst⟩ := splitOnce_eq_some.mp hsplit
      exact .range hstep hfirst hn hm
    | none =>
      rw [hsplit] at h
      cases hint : py.int part with
      | error e =>
        rw [hint] at h
        cases h
      | ok n =>
        rw [hint] at h
        cases h
        exact .value hany hstep (splitOnce_eq_none_iff.mp hsplit) hint

theorem Reads.readItem_eq (h : Reads py part item) : readItem py part = .ok item := by
  cases h with
  | any => rfl
  | step hn hzero =>
    rename_i s n
    show (py.int s >>= fun n => if n = 0 then _ else .ok (CronItem.step n)) = _
    rw [hn]
    exact if_neg hzero
  | range hstep hfirst hn hm =>
    rename_i s s' n m
    have hany : s ++ '-' :: s' ≠ ['*'] := by
      intro heq
      have hmem : '-' ∈ ['*'] := heq ▸ List.mem_append_right s List.mem_cons_self
      exact absurd hmem (by decide)
    unfold readItem
    rw [if_neg hany, if_neg (mt List.isPrefixOf_iff_prefix.mp hstep), splitOnce_append hfirst]
    dsimp only
    rw [hn, hm]
    rfl
  | value hany hstep hrange hn =>
    unfold readItem
    rw [if_neg hany, if_neg (mt List.isPrefixOf_iff_prefix.mp hstep), splitOnce_of_notMem hrange]
    dsimp only
    rw [hn]
    rfl

theorem readItem_eq_ok_iff : readItem py part = .ok item ↔ Reads py part item :=
  ⟨reads_of_readItem, Reads.readItem_eq⟩

theorem readField_eq_ok_iff : readField py field = .ok items ↔ ReadAs py field items := by
  unfold readField ReadAs
  simp only [mapM_eq_ok_iff, readItem_eq_ok_iff]

theorem updateField_eq (values : Finset ℤ) : updateField py b values part =
    (readItem py (strip part)).map fun item => values ∪ item.values b := by
  unfold updateField readItem
  dsimp only
  split_ifs
  · rfl
  · cases py.int ((strip part).drop 2) with
    | error e => rfl
    | ok n =>
      show (range b.lo (b.hi + 1) n).bind _ = Except.map _ (if n = 0 then _ else _)
      unfold range
      split_ifs <;> rfl
  · cases splitOnce '-' (strip part) with
    | none =>
      dsimp only
      cases py.int (strip part) with
      | error e => rfl
      | ok n =>
        show Except.ok (insert n values) = Except.ok (values ∪ {n})
        rw [Finset.union_comm, Finset.insert_eq]
    | some numbers =>
      dsimp only
      cases py.int numbers.1 with
      | error e => rfl
      | ok n =>
        cases py.int numbers.2 with
        | error e => rfl
        | ok m => rfl

theorem parseField_eq : parseField py b field = (readField py field).map fun items =>
    items.foldl (fun values item => values ∪ item.values b) ∅ := by
  have hfold : ∀ (parts : List (List Char)) (values : Finset ℤ),
      parts.foldlM (updateField py b) values =
        (parts.mapM fun part => readItem py (strip part)).map fun items =>
          items.foldl (fun values item => values ∪ item.values b) values := by
    intro parts
    induction parts with
    | nil => exact fun _ => rfl
    | cons part parts ih =>
      intro values
      rw [List.foldlM_cons, List.mapM_cons, updateField_eq]
      cases readItem py (strip part) with
      | error e => rfl
      | ok item =>
        show parts.foldlM (updateField py b) (values ∪ item.values b) = _
        rw [ih]
        cases parts.mapM fun part => readItem py (strip part) with
        | error e => rfl
        | ok items => rfl
  exact hfold _ ∅

theorem mem_foldl_values {v : ℤ} {start : Finset ℤ} :
    v ∈ items.foldl (fun values item => values ∪ item.values b) start ↔
      v ∈ start ∨ ∃ item ∈ items, v ∈ item.values b := by
  induction items generalizing start with
  | nil => simp
  | cons item items ih =>
    rw [List.foldl_cons, ih, Finset.mem_union, List.exists_mem_cons_iff, or_assoc]

/-- What is not readable raises. -/
theorem readItem_error (h : readItem py part = .error e) : e.isInstance "ValueError" = true := by
  unfold readItem at h
  split_ifs at h
  · rcases bind_eq_error h with hint | ⟨n, -, hzero⟩
    · exact Interpreter.int_error hint
    · split_ifs at hzero
      cases hzero
      rfl
  · split at h
    · rcases bind_eq_error h with hstart | ⟨n, -, h⟩
      · exact Interpreter.int_error hstart
      · rcases bind_eq_error h with hstop | ⟨m, -, h⟩
        · exact Interpreter.int_error hstop
        · cases h
    · cases hint : py.int part with
      | error e' =>
        rw [hint] at h
        cases h
        exact Interpreter.int_error hint
      | ok n =>
        rw [hint] at h
        cases h

theorem readField_error (h : readField py field = .error e) : e.isInstance "ValueError" = true := by
  obtain ⟨part, -, hpart⟩ := exists_of_mapM_error h
  exact readItem_error hpart

theorem Numeral.read {s : List Char} {n k : ℤ} (h : Numeral s n) (hread : py.int s = .ok k) :
    k = n := by
  rw [Interpreter.int_digits h.ne_nil h.digits] at hread
  split_ifs at hread
  rw [← Except.ok.inj hread, h.value]

/-- No other form starts with a digit. -/
theorem readItem_digit {c : Char} {rest : List Char} (h : c.isDigit = true) :
    readItem py (c :: rest) =
      match splitOnce '-' (c :: rest) with
      | some (start, stop) => do
        let n ← py.int start
        let m ← py.int stop
        return .range n m
      | none => (py.int (c :: rest)).map .value := by
  have hstar : c ≠ '*' := by
    rintro rfl
    exact absurd h (by decide)
  have hany : c :: rest ≠ ['*'] := fun heq => hstar (List.cons.inj heq).1
  have hstep : ¬ ['*', '/'].isPrefixOf (c :: rest) = true := by
    intro hprefix
    exact hstar (List.cons_prefix_cons.mp (List.isPrefixOf_iff_prefix.mp hprefix)).1.symm
  unfold readItem
  rw [if_neg hany, if_neg hstep]

theorem Numeral.notMem {s : List Char} {n : ℤ} (h : Numeral s n) : '-' ∉ s :=
  fun hmem => absurd (h.digits _ hmem) (by decide)

theorem Numeral.exists_cons {s : List Char} {n : ℤ} (h : Numeral s n) :
    ∃ c rest, s = c :: rest ∧ c.isDigit = true := by
  obtain ⟨c, rest, hs⟩ := List.exists_cons_of_ne_nil h.ne_nil
  exact ⟨c, rest, hs, h.digits c (hs ▸ List.mem_cons_self)⟩

theorem Spells.read (h : Spells part item) {item' : CronItem}
    (hread : readItem py part = .ok item') : item' = item := by
  cases h with
  | any => exact (Except.ok.inj hread).symm
  | step hn =>
    obtain ⟨k, hk, hread⟩ := bind_eq_ok hread
    split_ifs at hread
    rw [← Except.ok.inj hread, hn.read hk]
  | value hn =>
    obtain ⟨c, rest, hs, hc⟩ := hn.exists_cons
    rw [hs, readItem_digit hc, ← hs, splitOnce_of_notMem hn.notMem] at hread
    cases hint : py.int part with
    | error e =>
      rw [hint] at hread
      cases hread
    | ok k =>
      rw [hint] at hread
      rw [← Except.ok.inj hread, hn.read hint]
  | range hn hm =>
    rename_i s s' n m
    obtain ⟨c, rest, hs, hc⟩ := hn.exists_cons
    have hpart : s ++ '-' :: s' = c :: (rest ++ '-' :: s') := by rw [hs, List.cons_append]
    rw [hpart, readItem_digit hc, ← hpart, splitOnce_append hn.notMem] at hread
    obtain ⟨k, hk, hread⟩ := bind_eq_ok hread
    obtain ⟨k', hk', hread⟩ := bind_eq_ok hread
    rw [← Except.ok.inj hread, hn.read hk, hm.read hk']

theorem Lists.read (h : Lists field items) {items' : List CronItem}
    (hread : ReadAs py field items') : items' = items := by
  unfold Lists at h
  unfold ReadAs at hread
  generalize field.splitOn ',' = parts at h hread
  induction h generalizing items' with
  | nil =>
    cases hread
    rfl
  | cons hspells _ ih =>
    cases hread with
    | cons hitem hrest => rw [hspells.read hitem.readItem_eq, ih hrest]

/-- A field is read in one way. -/
theorem ReadAs.unique (h : ReadAs py field items) {items' : List CronItem}
    (h' : ReadAs py field items') : items' = items :=
  Except.ok.inj ((readField_eq_ok_iff.mpr h').symm.trans (readField_eq_ok_iff.mpr h))

/-- What is read stands for the values between the bounds. -/
theorem parseField_ok (b : FieldBounds) (h : ReadAs py field items) :
    ∃ values, parseField py b field = .ok values ∧
      ∀ v, v ∈ values ↔ ∃ item ∈ items, v ∈ item.values b := by
  refine ⟨items.foldl (fun values item => values ∪ item.values b) ∅, ?_, ?_⟩
  · rw [parseField_eq, readField_eq_ok_iff.mpr h]
    rfl
  · intro v
    rw [mem_foldl_values]
    exact or_iff_right (Finset.notMem_empty v)

theorem parseField_error (b : FieldBounds) (h : ¬ Readable py field) :
    ∃ e, parseField py b field = .error e ∧ e.isInstance "ValueError" = true := by
  cases hread : readField py field with
  | error e =>
    refine ⟨e, ?_, readField_error hread⟩
    rw [parseField_eq, hread]
    rfl
  | ok items => exact absurd ⟨items, readField_eq_ok_iff.mp hread⟩ h

theorem Lists.ne_nil (h : Lists field items) : items ≠ [] := by
  rintro rfl
  exact List.splitOn_ne_nil ',' field (List.forall₂_nil_right_iff.mp h)

/-- A field is parsed exactly if it is readable just when it belongs to the language. -/
theorem parsesExactly_field_iff (py : Interpreter) (b : FieldBounds) (field : List Char) :
    ParsesExactly py b field ↔ (Grammatical b field ↔ Readable py field) := by
  constructor
  · intro hexact
    constructor
    · rintro ⟨items, hlists, hvalid⟩
      by_contra hunreadable
      obtain ⟨values, hok, -⟩ := hexact.accepts items hlists hvalid
      obtain ⟨e, herror, -⟩ := parseField_error b hunreadable
      rw [hok] at herror
      cases herror
    · rintro ⟨items, hread⟩
      by_contra hnot
      obtain ⟨e, herror, -⟩ := hexact.rejects hnot
      obtain ⟨values, hok, -⟩ := parseField_ok b hread
      rw [hok] at herror
      cases herror
  · intro hiff
    constructor
    · intro items hlists hvalid
      obtain ⟨items', hread⟩ := hiff.mp ⟨items, hlists, hvalid⟩
      have hitems : items' = items := hlists.read hread
      subst hitems
      obtain ⟨values, hok, hvalues⟩ := parseField_ok b hread
      have hdenoted : ∀ v, v ∈ values ↔ v ∈ denoted b items' := by
        intro v
        rw [hvalues]
        constructor
        · rintro ⟨item, hitem, hv⟩
          have hbounds := (hvalid item hitem).mem_bounds hv
          exact ⟨item, hitem, (CronItem.mem_values_iff hbounds).mp hv⟩
        · rintro ⟨item, hitem, hv⟩
          exact ⟨item, hitem, (CronItem.mem_values_iff (CronItem.denotes_subset hv)).mpr hv⟩
      refine ⟨values, hok, ?_, Set.ext hdenoted⟩
      -- a field has at least one item, and a valid one stands for something
      obtain ⟨item, rest, hcons⟩ := List.exists_cons_of_ne_nil hlists.ne_nil
      have hmem : item ∈ items' := hcons ▸ List.mem_cons_self
      obtain ⟨v, hv⟩ := CronItem.nonempty_iff_meets.mpr (hvalid item hmem).meets
      exact ⟨v, (hdenoted v).mpr ⟨item, hmem, hv⟩⟩
    · intro hnot
      exact parseField_error b (mt hiff.mpr hnot)

end Hypern.Scheduler
