import Hypern.Scheduler.Cron
import Hypern.Scheduler.CronFields
import Mathlib.Data.Fin.VecNotation

/-! The five fields of a `CronExpression`, beside what a clock shows for them, and the two methods
that compare them. -/

namespace Hypern.Scheduler

open Lib Python

/-! ## Readings of the clock -/

theorem monthDay_bounds {lengths : List Nat} {day : Nat} (month : Nat) (h : day < lengths.sum)
    (hlengths : ∀ length ∈ lengths, length ≤ 31) :
    (month ≤ (monthDay month lengths day).1 ∧ (monthDay month lengths day).1 < month + lengths.length) ∧
      1 ≤ (monthDay month lengths day).2 ∧ (monthDay month lengths day).2 ≤ 31 := by
  induction lengths generalizing month day with
  | nil => exact absurd h (Nat.not_lt_zero day)
  | cons length lengths ih =>
    rw [List.forall_mem_cons] at hlengths
    rw [List.sum_cons] at h
    rw [List.length_cons]
    unfold monthDay
    split_ifs with hday
    · omega
    · have hleft : day - length < lengths.sum := by omega
      have hrest := ih (month + 1) hleft hlengths.2
      omega

namespace LocalTime

variable (t : LocalTime)

theorem monthLengths_le (year : Nat) : ∀ length ∈ monthLengths year, length ≤ 31 := by
  unfold monthLengths
  split_ifs <;> decide

theorem mon_bounds : 1 ≤ t.mon ∧ t.mon ≤ 12 := by
  have hbounds := (monthDay_bounds 1 t.day_lt (monthLengths_le t.year)).1
  exact ⟨hbounds.1, Nat.le_of_lt_succ hbounds.2⟩

theorem mday_bounds : 1 ≤ t.mday ∧ t.mday ≤ 31 :=
  (monthDay_bounds 1 t.day_lt (monthLengths_le t.year)).2

/-- Zero is Sunday. -/
def cronDow : Nat := (t.wday + 1) % 7

/-- Midnight of a day of the year 1, which starts with a Monday. -/
def ofDay (day : Nat) (h : day < 365) : LocalTime := ⟨1, day, 0, 0, h⟩

end LocalTime

/-- A field of the expression, and what is compared with it. Every value between the bounds is read
at some time, and no other. -/
structure ClockField extends FieldBounds where
  reading : LocalTime → ℤ
  reading_mem : ∀ t, reading t ∈ Set.Icc lo hi
  reading_onto : ∀ v ∈ Set.Icc lo hi, ∃ t, reading t = v

namespace ClockField

def minute : ClockField where
  lo := 0
  hi := 59
  le := by decide
  reading t := t.min.val
  reading_mem t := ⟨Int.natCast_nonneg _, Int.le_of_lt_add_one (Int.ofNat_lt.mpr t.min.isLt)⟩
  reading_onto v hv :=
    have hv' : 0 ≤ v ∧ v ≤ 59 := hv
    ⟨⟨1, 0, 0, ⟨v.toNat, by omega⟩, by decide⟩, Int.toNat_of_nonneg hv.1⟩

def hour : ClockField where
  lo := 0
  hi := 23
  le := by decide
  reading t := t.hour.val
  reading_mem t := ⟨Int.natCast_nonneg _, Int.le_of_lt_add_one (Int.ofNat_lt.mpr t.hour.isLt)⟩
  reading_onto v hv :=
    have hv' : 0 ≤ v ∧ v ≤ 23 := hv
    ⟨⟨1, 0, ⟨v.toNat, by omega⟩, 0, by decide⟩, Int.toNat_of_nonneg hv.1⟩

def dom : ClockField where
  lo := 1
  hi := 31
  le := by decide
  reading t := t.mday
  reading_mem t := ⟨Int.ofNat_le.mpr t.mday_bounds.1, Int.ofNat_le.mpr t.mday_bounds.2⟩
  reading_onto v hv := by
    obtain ⟨hlo, hhi⟩ := hv
    have hday : (v - 1).toNat < 31 := by omega
    refine ⟨.ofDay (v - 1).toNat (by omega), ?_⟩
    have hmday : (LocalTime.ofDay (v - 1).toNat (by omega)).mday = (v - 1).toNat + 1 := by
      show (if (v - 1).toNat < 31 then _ else _ : Nat × Nat).2 = _
      rw [if_pos hday]
      rfl
    rw [hmday]
    omega

/-- The day of the year 1 that a month starts with. -/
def firstDay : Fin 12 → Fin 365 := ![0, 31, 59, 90, 120, 151, 181, 212, 243, 273, 304, 334]

def month : ClockField where
  lo := 1
  hi := 12
  le := by decide
  reading t := t.mon
  reading_mem t := ⟨Int.ofNat_le.mpr t.mon_bounds.1, Int.ofNat_le.mpr t.mon_bounds.2⟩
  reading_onto v hv := by
    have hstart : ∀ i, (LocalTime.ofDay (firstDay i).val (firstDay i).isLt).mon = i.val + 1 := by
      decide
    obtain ⟨hlo, hhi⟩ := hv
    have hindex : (v - 1).toNat < 12 := by omega
    refine ⟨.ofDay _ (firstDay ⟨(v - 1).toNat, hindex⟩).isLt, ?_⟩
    rw [hstart ⟨(v - 1).toNat, hindex⟩]
    show (((v - 1).toNat + 1 : ℕ) : ℤ) = v
    omega

def dow : ClockField where
  lo := 0
  hi := 6
  le := by decide
  reading t := t.cronDow
  reading_mem t := ⟨Int.natCast_nonneg _,
    Int.le_of_lt_add_one (Int.ofNat_lt.mpr (Nat.mod_lt _ (by decide)))⟩
  reading_onto v hv := by
    obtain ⟨hlo, hhi⟩ := hv
    refine ⟨.ofDay ((v + 6) % 7).toNat (by omega), ?_⟩
    show (((daysBefore 1 + ((v + 6) % 7).toNat) % 7 + 1) % 7 : ℕ) = v
    have hzero : daysBefore 1 = 0 := by decide
    omega

end ClockField

def clockFields : List ClockField := [.minute, .hour, .dom, .month, .dow]

/-! ## Expressions -/

def CronExpression.matches (expr : CronExpression) (t : LocalTime) : Bool :=
  (t.min.val : ℤ) ∈ expr.minute && (t.hour.val : ℤ) ∈ expr.hour && (t.mday : ℤ) ∈ expr.dom &&
    (t.mon : ℤ) ∈ expr.month && (t.wday : ℤ) ∈ expr.dow

namespace CronExpression

def init (py : Interpreter) (expression : String) : Except PyExc CronExpression :=
  match split (strip expression.toList) with
  | [minute, hour, dom, month, dow] => do
    let minute ← parseField py ClockField.minute.toFieldBounds minute
    let hour ← parseField py ClockField.hour.toFieldBounds hour
    let dom ← parseField py ClockField.dom.toFieldBounds dom
    let month ← parseField py ClockField.month.toFieldBounds month
    let dow ← parseField py ClockField.dow.toFieldBounds dow
    return { minute, hour, dom, month, dow }
  | _ => .error (valueError ("Invalid cron expression (need 5 fields): " ++ expression))

/-- The fields with the values that they accept. -/
def fields (expr : CronExpression) : List (ClockField × Finset ℤ) :=
  [(.minute, expr.minute), (.hour, expr.hour), (.dom, expr.dom), (.month, expr.month),
    (.dow, expr.dow)]

/-- Every field accepts something that a clock shows. -/
def Satisfiable (expr : CronExpression) : Prop := ∀ p ∈ expr.fields, ∃ t, p.1.reading t ∈ p.2

end CronExpression

section

variable (py : Interpreter)

/-- What a readable field stands for. -/
def standsFor (f : ClockField) (field : List Char) : Set ℤ :=
  {v | ∃ items, ReadAs py field items ∧ v ∈ denoted f.toFieldBounds items}

/-- Each item of the field misses the bounds. -/
def Unmet (f : ClockField) (field : List Char) : Prop :=
  ∃ items, ReadAs py field items ∧ ∀ item ∈ items, ¬ item.Meets f.toFieldBounds

/-- Five readable fields, one of which is not met by any value. -/
structure Dead (expression : String) : Prop where
  five : (split (strip expression.toList)).length = 5
  readable : ∀ field ∈ split (strip expression.toList), Readable py field
  unmet : ∃ p ∈ clockFields.zip (split (strip expression.toList)), Unmet py p.1 p.2

/-- No expression is accepted with a field that a clock never satisfies. -/
def AcceptsOnlySatisfiable (expression : String) : Prop :=
  ∀ expr, CronExpression.init py expression = .ok expr → expr.Satisfiable

end

variable {py : Interpreter} {f : ClockField} {field : List Char} {values : Finset ℤ}
  {expression : String} {expr : CronExpression}

theorem readAs_of_parseField {b : FieldBounds} (h : parseField py b field = .ok values) :
    ∃ items, ReadAs py field items ∧ ∀ v, v ∈ values ↔ ∃ item ∈ items, v ∈ item.values b := by
  by_cases hreadable : Readable py field
  · obtain ⟨items, hread⟩ := hreadable
    obtain ⟨values', hok, hvalues⟩ := parseField_ok b hread
    rw [h] at hok
    exact ⟨items, hread, Except.ok.inj hok ▸ hvalues⟩
  · obtain ⟨e, herror, -⟩ := parseField_error b hreadable
    rw [h] at herror
    cases herror

/-- Between its bounds a field accepts what it stands for. -/
theorem mem_iff_standsFor (h : parseField py f.toFieldBounds field = .ok values) {v : ℤ}
    (hv : v ∈ Set.Icc f.lo f.hi) : v ∈ values ↔ v ∈ standsFor py f field := by
  obtain ⟨items, hread, hvalues⟩ := readAs_of_parseField h
  rw [hvalues]
  constructor
  · rintro ⟨item, hitem, hmem⟩
    exact ⟨items, hread, item, hitem, (CronItem.mem_values_iff hv).mp hmem⟩
  · rintro ⟨items', hread', item, hitem, hmem⟩
    cases hread.unique hread'
    exact ⟨item, hitem, (CronItem.mem_values_iff hv).mpr hmem⟩

theorem exists_reading_iff (h : parseField py f.toFieldBounds field = .ok values) :
    (∃ t, f.reading t ∈ values) ↔ ¬ Unmet py f field := by
  obtain ⟨items, hread, hvalues⟩ := readAs_of_parseField h
  constructor
  · rintro ⟨t, ht⟩ ⟨items', hread', hunmet⟩
    cases hread.unique hread'
    obtain ⟨item, hitem, hmem⟩ := (hvalues _).mp ht
    have hdenotes := (CronItem.mem_values_iff (f.reading_mem t)).mp hmem
    exact hunmet item hitem (CronItem.nonempty_iff_meets.mp ⟨_, hdenotes⟩)
  · intro hmet
    have hsome : ∃ item ∈ items, item.Meets f.toFieldBounds := by
      by_contra hnone
      push Not at hnone
      exact hmet ⟨items, hread, hnone⟩
    obtain ⟨item, hitem, hmeets⟩ := hsome
    obtain ⟨v, hv⟩ := CronItem.nonempty_iff_meets.mpr hmeets
    have hbounds := CronItem.denotes_subset hv
    obtain ⟨t, rfl⟩ := f.reading_onto v hbounds
    exact ⟨t, (hvalues _).mpr ⟨item, hitem, (CronItem.mem_values_iff hbounds).mpr hv⟩⟩

namespace CronExpression

/-- What an accepted expression is made of. -/
theorem init_ok (h : init py expression = .ok expr) :
    ∃ minute hour dom month dow,
      split (strip expression.toList) = [minute, hour, dom, month, dow] ∧
      parseField py ClockField.minute.toFieldBounds minute = .ok expr.minute ∧
      parseField py ClockField.hour.toFieldBounds hour = .ok expr.hour ∧
      parseField py ClockField.dom.toFieldBounds dom = .ok expr.dom ∧
      parseField py ClockField.month.toFieldBounds month = .ok expr.month ∧
      parseField py ClockField.dow.toFieldBounds dow = .ok expr.dow := by
  unfold init at h
  split at h
  · rename_i minute hour dom month dow hsplit
    obtain ⟨minute', hminute, h⟩ := bind_eq_ok h
    obtain ⟨hour', hhour, h⟩ := bind_eq_ok h
    obtain ⟨dom', hdom, h⟩ := bind_eq_ok h
    obtain ⟨month', hmonth, h⟩ := bind_eq_ok h
    obtain ⟨dow', hdow, h⟩ := bind_eq_ok h
    cases h
    exact ⟨minute, hour, dom, month, dow, hsplit, hminute, hhour, hdom, hmonth, hdow⟩
  · cases h

theorem eq_of_length_five {α : Type} :
    ∀ {l : List α}, l.length = 5 → ∃ a b c d e, l = [a, b, c, d, e]
  | [a, b, c, d, e], _ => ⟨a, b, c, d, e, rfl⟩

theorem init_of_readable (hfive : (split (strip expression.toList)).length = 5)
    (hread : ∀ field ∈ split (strip expression.toList), Readable py field) :
    ∃ expr, init py expression = .ok expr := by
  obtain ⟨minute, hour, dom, month, dow, hsplit⟩ := eq_of_length_five hfive
  rw [hsplit] at hread
  have hparse : ∀ (f : ClockField), ∀ field ∈ [minute, hour, dom, month, dow],
      ∃ values, parseField py f.toFieldBounds field = .ok values := by
    intro f field hfield
    obtain ⟨items, hitems⟩ := hread field hfield
    obtain ⟨values, hvalues, -⟩ := parseField_ok f.toFieldBounds hitems
    exact ⟨values, hvalues⟩
  obtain ⟨minute', hminute⟩ := hparse .minute minute (by simp)
  obtain ⟨hour', hhour⟩ := hparse .hour hour (by simp)
  obtain ⟨dom', hdom⟩ := hparse .dom dom (by simp)
  obtain ⟨month', hmonth⟩ := hparse .month month (by simp)
  obtain ⟨dow', hdow⟩ := hparse .dow dow (by simp)
  refine ⟨⟨minute', hour', dom', month', dow'⟩, ?_⟩
  unfold init
  rw [hsplit]
  dsimp only
  rw [hminute, hhour, hdom, hmonth, hdow]
  rfl

theorem satisfiable_iff (h : init py expression = .ok expr) :
    expr.Satisfiable ↔
      ∀ p ∈ clockFields.zip (split (strip expression.toList)), ¬ Unmet py p.1 p.2 := by
  obtain ⟨minute, hour, dom, month, dow, hsplit, hminute, hhour, hdom, hmonth, hdow⟩ := init_ok h
  rw [hsplit]
  simp only [Satisfiable, fields, clockFields, List.zip_cons_cons, List.zip_nil_right,
    List.forall_mem_cons, exists_reading_iff hminute, exists_reading_iff hhour,
    exists_reading_iff hdom, exists_reading_iff hmonth, exists_reading_iff hdow,
    List.not_mem_nil, false_imp_iff, implies_true]

theorem readable_of_init (h : init py expression = .ok expr) :
    (split (strip expression.toList)).length = 5 ∧
      ∀ field ∈ split (strip expression.toList), Readable py field := by
  obtain ⟨minute, hour, dom, month, dow, hsplit, hminute, hhour, hdom, hmonth, hdow⟩ := init_ok h
  have hread : ∀ {b : FieldBounds} {field : List Char} {values : Finset ℤ},
      parseField py b field = .ok values → Readable py field := by
    intro b field values hparse
    obtain ⟨items, hitems, -⟩ := readAs_of_parseField hparse
    exact ⟨items, hitems⟩
  rw [hsplit]
  refine ⟨rfl, ?_⟩
  simp only [List.forall_mem_cons, List.not_mem_nil, false_imp_iff, implies_true, and_true]
  exact ⟨hread hminute, hread hhour, hread hdom, hread hmonth, hread hdow⟩

theorem acceptsOnlySatisfiable_iff (py : Interpreter) (expression : String) :
    AcceptsOnlySatisfiable py expression ↔ ¬ Dead py expression := by
  constructor
  · intro h hdead
    obtain ⟨expr, hok⟩ := init_of_readable hdead.five hdead.readable
    obtain ⟨p, hp, hunmet⟩ := hdead.unmet
    exact (satisfiable_iff hok).mp (h expr hok) p hp hunmet
  · intro h expr hok
    rw [satisfiable_iff hok]
    intro p hp hunmet
    obtain ⟨hfive, hreadable⟩ := readable_of_init hok
    exact h ⟨hfive, hreadable, p, hp, hunmet⟩

/-- A field is parsed exactly if it is readable just when it belongs to the language, and an
expression is accepted with a field that is never satisfied exactly if it is dead. -/
theorem parses_exactly_iff (py : Interpreter) :
    (∀ b field, ParsesExactly py b field ↔ (Grammatical b field ↔ Readable py field)) ∧
      ∀ expression, AcceptsOnlySatisfiable py expression ↔ ¬ Dead py expression :=
  ⟨parsesExactly_field_iff py, acceptsOnlySatisfiable_iff py⟩

/-- The digits of ASCII, and no others. -/
def sampleInterpreter : Interpreter where
  decimal c := if c.isDigit then some (c.toNat - '0'.toNat) else none
  decimal_digit h := if_pos h
  repr s := "'" ++ String.ofList s ++ "'"
  maxStrDigits := 4300
  maxStrDigits_ge := .inr (by decide)

theorem minute_seventy_accepted :
    ¬ ∀ py : Interpreter, (∀ b field, ParsesExactly py b field) ∧
      ∀ expression, AcceptsOnlySatisfiable py expression := by
  intro h
  have hread : ReadAs sampleInterpreter "70".toList [.value 70] :=
    readField_eq_ok_iff.mp (by decide +kernel)
  have hexact := (h sampleInterpreter).1 ClockField.minute.toFieldBounds "70".toList
  have hlanguage : ¬ Grammatical ClockField.minute.toFieldBounds "70".toList := by
    rintro ⟨items, hlists, hvalid⟩
    rw [← hlists.read hread] at hvalid
    have hbound : (70 : ℤ) ≤ 59 := (hvalid (.value 70) (List.mem_singleton_self _)).2
    exact absurd hbound (by decide)
  obtain ⟨e, herror, -⟩ := hexact.rejects hlanguage
  obtain ⟨values, hok, -⟩ := parseField_ok ClockField.minute.toFieldBounds hread
  rw [hok] at herror
  cases herror

/-! ## The two methods -/

variable {t : LocalTime}

/-- The time and the cron weekday belong to what the five fields stand for. -/
def Belongs (py : Interpreter) (expression : String) (t : LocalTime) : Prop :=
  ∀ p ∈ clockFields.zip (split (strip expression.toList)), p.1.reading t ∈ standsFor py p.1 p.2

/-- Both methods tell whether the time belongs to the expression. -/
def MatchersAgree (py : Interpreter) (expression : String) (expr : CronExpression)
    (t : LocalTime) : Prop :=
  (expr.matches t = expr.matchesNow t) ∧ (expr.matches t = true ↔ Belongs py expression t) ∧
    (expr.matchesNow t = true ↔ Belongs py expression t)

/-- Where the rest of the time fits, the last field has either both or none of the two numbers of
the weekday, that with Monday as zero and that with Sunday as zero. -/
def SameWeekday (py : Interpreter) (expression : String) (t : LocalTime) : Prop :=
  match split (strip expression.toList) with
  | [minute, hour, dom, month, dow] =>
    (t.min.val : ℤ) ∈ standsFor py .minute minute → (t.hour.val : ℤ) ∈ standsFor py .hour hour →
      (t.mday : ℤ) ∈ standsFor py .dom dom → (t.mon : ℤ) ∈ standsFor py .month month →
        ((t.wday : ℤ) ∈ standsFor py .dow dow ↔ (t.cronDow : ℤ) ∈ standsFor py .dow dow)
  | _ => True

/-- Between its bounds each field accepts what it stands for. -/
theorem mem_fields_iff (h : init py expression = .ok expr) :
    ∃ minute hour dom month dow,
      split (strip expression.toList) = [minute, hour, dom, month, dow] ∧
      (∀ v ∈ Set.Icc ClockField.minute.lo ClockField.minute.hi,
        v ∈ expr.minute ↔ v ∈ standsFor py .minute minute) ∧
      (∀ v ∈ Set.Icc ClockField.hour.lo ClockField.hour.hi,
        v ∈ expr.hour ↔ v ∈ standsFor py .hour hour) ∧
      (∀ v ∈ Set.Icc ClockField.dom.lo ClockField.dom.hi,
        v ∈ expr.dom ↔ v ∈ standsFor py .dom dom) ∧
      (∀ v ∈ Set.Icc ClockField.month.lo ClockField.month.hi,
        v ∈ expr.month ↔ v ∈ standsFor py .month month) ∧
      ∀ v ∈ Set.Icc ClockField.dow.lo ClockField.dow.hi,
        v ∈ expr.dow ↔ v ∈ standsFor py .dow dow := by
  obtain ⟨minute, hour, dom, month, dow, hsplit, hminute, hhour, hdom, hmonth, hdow⟩ := init_ok h
  exact ⟨minute, hour, dom, month, dow, hsplit, fun _ => mem_iff_standsFor hminute,
    fun _ => mem_iff_standsFor hhour, fun _ => mem_iff_standsFor hdom,
    fun _ => mem_iff_standsFor hmonth, fun _ => mem_iff_standsFor hdow⟩

theorem matchesNow_iff (expr : CronExpression) (t : LocalTime) : expr.matchesNow t = true ↔
    ((t.min.val : ℤ) ∈ expr.minute ∧ (t.hour.val : ℤ) ∈ expr.hour ∧ (t.mday : ℤ) ∈ expr.dom ∧
      (t.mon : ℤ) ∈ expr.month) ∧ (t.cronDow : ℤ) ∈ expr.dow := by
  unfold matchesNow
  simp only [Bool.and_eq_true, decide_eq_true_eq, and_assoc, LocalTime.cronDow]

theorem matches_iff (expr : CronExpression) (t : LocalTime) : expr.matches t = true ↔
    ((t.min.val : ℤ) ∈ expr.minute ∧ (t.hour.val : ℤ) ∈ expr.hour ∧ (t.mday : ℤ) ∈ expr.dom ∧
      (t.mon : ℤ) ∈ expr.month) ∧ (t.wday : ℤ) ∈ expr.dow := by
  unfold CronExpression.matches
  simp only [Bool.and_eq_true, decide_eq_true_eq, and_assoc]

theorem belongs_iff (h : init py expression = .ok expr) (t : LocalTime) :
    Belongs py expression t ↔ expr.matchesNow t = true := by
  obtain ⟨minute, hour, dom, month, dow, hsplit, hmin, hhour, hmday, hmon, hdow⟩ := mem_fields_iff h
  unfold Belongs
  rw [hsplit, matchesNow_iff]
  simp only [clockFields, List.zip_cons_cons, List.zip_nil_right, List.forall_mem_cons,
    List.not_mem_nil, false_imp_iff, implies_true, and_true, and_assoc,
    ← hmin _ (ClockField.minute.reading_mem t), ← hhour _ (ClockField.hour.reading_mem t),
    ← hmday _ (ClockField.dom.reading_mem t), ← hmon _ (ClockField.month.reading_mem t),
    ← hdow _ (ClockField.dow.reading_mem t)]
  exact Iff.rfl

theorem LocalTime.wday_mem (t : LocalTime) : (t.wday : ℤ) ∈ Set.Icc ClockField.dow.lo ClockField.dow.hi :=
  ⟨Int.natCast_nonneg _, Int.le_of_lt_add_one (Int.ofNat_lt.mpr (Nat.mod_lt _ (by decide)))⟩

theorem sameWeekday_iff (h : init py expression = .ok expr) (t : LocalTime) :
    SameWeekday py expression t ↔
      ((t.min.val : ℤ) ∈ expr.minute ∧ (t.hour.val : ℤ) ∈ expr.hour ∧ (t.mday : ℤ) ∈ expr.dom ∧
        (t.mon : ℤ) ∈ expr.month → ((t.wday : ℤ) ∈ expr.dow ↔ (t.cronDow : ℤ) ∈ expr.dow)) := by
  obtain ⟨minute, hour, dom, month, dow, hsplit, hmin, hhour, hmday, hmon, hdow⟩ := mem_fields_iff h
  unfold SameWeekday
  rw [hsplit]
  simp only [and_imp]
  apply imp_congr (hmin _ (ClockField.minute.reading_mem t)).symm
  apply imp_congr (hhour _ (ClockField.hour.reading_mem t)).symm
  apply imp_congr (hmday _ (ClockField.dom.reading_mem t)).symm
  apply imp_congr (hmon _ (ClockField.month.reading_mem t)).symm
  exact iff_congr (hdow _ (LocalTime.wday_mem t)).symm (hdow _ (ClockField.dow.reading_mem t)).symm

/-- The two methods agree exactly where the two numbers of the weekday do. -/
theorem matchersAgree_iff (h : init py expression = .ok expr) (t : LocalTime) :
    MatchersAgree py expression expr t ↔ SameWeekday py expression t := by
  have hsame : MatchersAgree py expression expr t ↔
      (expr.matches t = true ↔ expr.matchesNow t = true) := by
    unfold MatchersAgree
    rw [belongs_iff h t, Bool.eq_iff_iff, and_self_left]
    exact and_iff_left Iff.rfl
  rw [hsame, matches_iff, matchesNow_iff, and_congr_right_iff, sameWeekday_iff h t]

/-- Nine o'clock on Monday, the 16th of June 2025. -/
def monday : LocalTime := ⟨2025, 166, 9, 0, by decide⟩

theorem exists_of_toOption {α β : Type} {x : Except PyExc α} {g : α → β} {b : β}
    (h : x.toOption.map g = some b) : ∃ a, x = .ok a ∧ g a = b := by
  cases x with
  | error e => cases h
  | ok a => exact ⟨a, rfl, Option.some.inj h⟩

theorem everyDay_agrees : ∃ expr, init sampleInterpreter "0 9-17 * * *" = .ok expr ∧
    MatchersAgree sampleInterpreter "0 9-17 * * *" expr monday := by
  have hrun : (init sampleInterpreter "0 9-17 * * *").toOption.map (fun expr =>
      (decide ((monday.wday : ℤ) ∈ expr.dow), decide ((monday.cronDow : ℤ) ∈ expr.dow))) =
        some (true, true) := by
    decide +kernel
  obtain ⟨expr, hexpr, hdow⟩ := exists_of_toOption hrun
  obtain ⟨hwday, hcronDow⟩ := Prod.mk.inj hdow
  refine ⟨expr, hexpr, (matchersAgree_iff hexpr monday).mpr ?_⟩
  rw [sameWeekday_iff hexpr monday]
  intro _
  exact iff_of_true (of_decide_eq_true hwday) (of_decide_eq_true hcronDow)

theorem monday_not_matched :
    ¬ ∀ (py : Interpreter) (expression : String) (expr : CronExpression) (t : LocalTime),
      init py expression = .ok expr → MatchersAgree py expression expr t := by
  intro h
  have hrun : (init sampleInterpreter "0 9 * * 1").toOption.map
      (fun expr => (expr.matches monday, expr.matchesNow monday)) = some (false, true) := by
    decide +kernel
  obtain ⟨expr, hexpr, hboth⟩ := exists_of_toOption hrun
  obtain ⟨hmatches, hnow⟩ := Prod.mk.inj hboth
  have hagree := (h sampleInterpreter "0 9 * * 1" expr monday hexpr).1
  rw [hmatches, hnow] at hagree
  cases hagree

end CronExpression

end Hypern.Scheduler
