import Mathlib.Tactic.SplitIfs
import Hypern.Lib.Guarded

/-! The metrics registry. A metric is found by its name and its labels, and is updated by atomic
accesses, a floating-point number by a compare-and-swap loop. All that happens while the thread has
the lock of the shard the name falls in, so what a renderer reads of a shard is what the finished
updates come to, one after the other. -/

namespace Hypern.Telemetry

open Lib

variable {F M O L : Type}

/-- The arithmetic of `f64`; values are compared by their bits. -/
structure Floats (F : Type) where
  zero : F
  one : F
  infinity : F
  add : F → F → F
  sub : F → F → F
  le : F → F → Bool

/-- How a metric of one kind is made, and what an update `O` does in each of its accesses. The
choice is whether a weak exchange fails for no reason. -/
structure Metric (M O L : Type) where
  new : M
  start : O → L
  access : O → L → Bool → M → M × Option L

/-! ## Counters -/

namespace Counter

def metric : Metric UInt64 UInt64 Unit where
  new := 0
  start := fun _ => ()
  access := fun n _ _ value => (value + n, none)

def incBy (n value : UInt64) : UInt64 := value + n

end Counter

/-! ## Gauges -/

namespace Gauge

inductive Op (F : Type)
  | set (value : F)
  | inc
  | dec

inductive Place (F : Type)
  | store
  | load
  | exchange (current : F)

variable (fl : Floats F)

def apply : Op F → F → F
  | .set value, _ => value
  | .inc, current => fl.add current fl.one
  | .dec, current => fl.sub current fl.one

variable [DecidableEq F]

def access (op : Op F) : Place F → Bool → F → F × Option (Place F)
  | .store, _, value => (apply fl op value, none)
  | .load, _, value => (value, some (.exchange value))
  | .exchange current, fails, value =>
    if fails || current ≠ value then (value, some .load) else (apply fl op current, none)

def metric : Metric F (Op F) (Place F) where
  new := fl.zero
  start
    | .set _ => .store
    | _ => .load
  access := access fl

end Gauge

/-! ## Histograms -/

structure Histogram (F : Type) where
  buckets : List (F × UInt64)
  sum : F
  count : UInt64

namespace Histogram

inductive Place (F : Type)
  | bucket (i : Nat)
  | load
  | exchange (current : F)

variable (fl : Floats F)

def new (bounds : List F) : Histogram F :=
  ⟨(bounds.map fun bound => (bound, 0)) ++ [(fl.infinity, 0)], fl.zero, 0⟩

def bump (value : F) (bucket : F × UInt64) : F × UInt64 :=
  if fl.le value bucket.1 then (bucket.1, bucket.2 + 1) else bucket

variable [DecidableEq F]

def access (value : F) : Place F → Bool → Histogram F → Histogram F × Option (Place F)
  | .bucket i, _, h =>
    if i < h.buckets.length then
      ({ h with buckets := h.buckets.modify i (bump fl value) }, some (.bucket (i + 1)))
    else ({ h with count := h.count + 1 }, some .load)
  | .load, _, h => (h, some (.exchange h.sum))
  | .exchange current, fails, h =>
    if fails || current ≠ h.sum then (h, some .load)
    else ({ h with sum := fl.add current value }, none)

def metric (bounds : List F) : Metric (Histogram F) F (Place F) where
  new := new fl bounds
  start := fun _ => .bucket 0
  access := access fl

omit [DecidableEq F] in
/-- An observation, all at once. -/
def observe (value : F) (h : Histogram F) : Histogram F :=
  ⟨h.buckets.map (bump fl value), fl.add h.sum value, h.count + 1⟩

end Histogram

/-! ## The registry -/

/-- A call of one of the methods. -/
structure Update (O : Type) where
  name : String
  labels : Option String
  op : O

def Update.labelKey (u : Update O) : String := u.labels.getD ""

/-- What a shard has for a name and a label key. -/
abbrev Shard (M : Type) := String → String → Option M

def Shard.insert (s : Shard M) (name labels : String) (metric : M) : Shard M :=
  Function.update s name (Function.update (s name) labels (some metric))

inductive Place (L : Type)
  | locate
  | on (place : L)

/-- One map of the registry. The entry of the outer map is kept to the end of the call, and with it
the lock of the shard. -/
def registry (m : Metric M O L) (shard : String → Nat) :
    Guarded Nat (Shard M) (Update O) (Place L) Bool where
  key u := shard u.name
  enter _ := .locate
  turn u place fails s :=
    match place with
    | .locate =>
      (s.insert u.name u.labelKey ((s u.name u.labelKey).getD m.new), some (.on (m.start u.op)))
    | .on place =>
      match s u.name u.labelKey with
      | some value =>
        (s.insert u.name u.labelKey (m.access u.op place fails value).1,
          (m.access u.op place fails value).2.map .on)
      | none => (s, none)

/-- The threads that use one map of the registry. -/
abbrev System (M O L : Type) :=
  Config (Guarded.Cells Nat (Shard M) (Update O)) (Guarded.Place (Update O) (Place L))

def start : System M O L := Guarded.start fun _ _ _ => none

/-- The finished updates of a metric. -/
def finished (shard : String → Nat) (c : System M O L) (name labels : String) : List O :=
  ((c.shared.done (shard name)).filter fun u => u.name = name ∧ u.labelKey = labels).map (·.op)

/-- A metric is there from its first update on. -/
def after (new : M) (effect : O → M → M) : List O → Option M
  | [] => none
  | op :: ops => some ((op :: ops).foldl (fun value op => effect op value) new)

/-! ## One update alone -/

namespace Metric

/-- The accesses of an update come to its effect. -/
structure Sound (m : Metric M O L) (effect : O → M → M) (At : O → M → L → M → Prop) : Prop where
  start : ∀ op x, At op x (m.start op) x
  goesOn : ∀ op x l y fails z l', At op x l y → m.access op l fails y = (z, some l') → At op x l' z
  ends : ∀ op x l y fails z, At op x l y → m.access op l fails y = (z, none) → z = effect op x

theorem counter_sound : Sound Counter.metric Counter.incBy fun _ x _ y => y = x where
  start _ _ := rfl
  goesOn op x l y fails z l' hat haccess := by cases haccess
  ends op x l y fails z hat haccess := by
    cases haccess
    rw [hat]
    rfl

variable [DecidableEq F] {fl : Floats F}

theorem gauge_sound : Sound (Gauge.metric fl) (Gauge.apply fl) fun _ x _ y => y = x where
  start _ _ := rfl
  goesOn op x l y fails z l' hat haccess := by
    cases l with
    | store => cases haccess
    | load =>
      cases haccess
      exact hat
    | exchange current =>
      simp only [Gauge.metric, Gauge.access] at haccess
      split_ifs at haccess <;> cases haccess
      exact hat
  ends op x l y fails z hat haccess := by
    cases l with
    | store =>
      cases haccess
      rw [hat]
    | load => cases haccess
    | exchange current =>
      simp only [Gauge.metric, Gauge.access] at haccess
      split_ifs at haccess with hfails <;> cases haccess
      have hsame : current = y := by simp_all
      rw [hsame, hat]

/-- Where an observation is: in the loop over the buckets, or done with them. -/
def ObservedAt (fl : Floats F) (value : F) (h : Histogram F) :
    Histogram.Place F → Histogram F → Prop
  | .bucket i, h' =>
    h' = { h with buckets := (h.buckets.take i).map (Histogram.bump fl value) ++ h.buckets.drop i }
  | .load, h' | .exchange _, h' =>
    h' = { h with buckets := h.buckets.map (Histogram.bump fl value), count := h.count + 1 }

theorem modify_bumped {α : Type} (f : α → α) (xs : List α) {i : Nat} (hi : i < xs.length) :
    ((xs.take i).map f ++ xs.drop i).modify i f = (xs.take (i + 1)).map f ++ xs.drop (i + 1) := by
  induction xs generalizing i with
  | nil => simp at hi
  | cons x xs ih =>
    cases i with
    | zero => simp
    | succ i => simpa using ih (Nat.lt_of_succ_lt_succ hi)

theorem histogram_sound (bounds : List F) :
    Sound (Histogram.metric fl bounds) (Histogram.observe fl) (ObservedAt fl) where
  start _ _ := by simp [ObservedAt, Histogram.metric]
  goesOn value h l h' fails z l' hat haccess := by
    cases l with
    | bucket i =>
      -- the buckets keep their number while their counts go up
      have hlength : h'.buckets.length = h.buckets.length := by
        rw [show h' = _ from hat]
        simp only [List.length_append, List.length_map, List.length_take, List.length_drop]
        omega
      simp only [Histogram.metric, Histogram.access] at haccess
      split_ifs at haccess with hi
      · cases haccess
        rw [hlength] at hi
        change _ = _ at hat
        subst hat
        simp only [ObservedAt, modify_bumped _ _ hi]
      · cases haccess
        rw [hlength, Nat.not_lt] at hi
        change _ = _ at hat
        subst hat
        simp [ObservedAt, List.take_of_length_le hi, List.drop_eq_nil_of_le hi]
    | load =>
      cases haccess
      exact hat
    | exchange current =>
      simp only [Histogram.metric, Histogram.access] at haccess
      split_ifs at haccess <;> cases haccess
      exact hat
  ends value h l h' fails z hat haccess := by
    cases l with
    | bucket i =>
      simp only [Histogram.metric, Histogram.access] at haccess
      split_ifs at haccess <;> cases haccess
    | load => cases haccess
    | exchange current =>
      simp only [Histogram.metric, Histogram.access] at haccess
      split_ifs at haccess with hfails <;> cases haccess
      have hsame : current = h'.sum := by simp_all
      change h' = _ at hat
      rw [hsame, hat]
      rfl

end Metric

/-! ## One shard -/

namespace Shard

variable {s : Shard M} {name labels name' labels' : String} {x y : M}

theorem insert_self : s.insert name labels x name labels = some x := by
  simp [insert]

theorem insert_of_ne (h : ¬ (name = name' ∧ labels = labels')) :
    s.insert name labels x name' labels' = s name' labels' := by
  unfold insert
  by_cases hname : name' = name
  · subst hname
    rw [Function.update_self, Function.update_of_ne]
    rintro rfl
    exact h ⟨rfl, rfl⟩
  · rw [Function.update_of_ne hname]

theorem insert_insert : (s.insert name labels x).insert name labels y = s.insert name labels y := by
  simp [insert]

end Shard

/-- What a finished update does to its shard. -/
def updateShard (m : Metric M O L) (effect : O → M → M) (u : Update O) (s : Shard M) : Shard M :=
  s.insert u.name u.labelKey (effect u.op ((s u.name u.labelKey).getD m.new))

def ShardAt (m : Metric M O L) (At : O → M → L → M → Prop) (u : Update O) (s : Shard M) :
    Place L → Shard M → Prop
  | .locate, s' => s' = s
  | .on l, s' => ∃ x, s' = s.insert u.name u.labelKey x ∧
    At u.op ((s u.name u.labelKey).getD m.new) l x

variable {m : Metric M O L} {effect : O → M → M} {At : O → M → L → M → Prop} {shard : String → Nat}
  {c : System M O L} {name labels : String}

theorem registry_atomic (h : m.Sound effect At) :
    (registry m shard).Atomic (updateShard m effect) (ShardAt m At) where
  enter _ _ := rfl
  goesOn u s place s' fails t place' hat hturn := by
    cases place with
    | locate =>
      cases hturn
      change s' = s at hat
      subst hat
      exact ⟨_, rfl, h.start u.op _⟩
    | on l =>
      obtain ⟨x, rfl, hx⟩ := hat
      simp only [registry, Shard.insert_self, Shard.insert_insert, Prod.mk.injEq,
        Option.map_eq_some_iff] at hturn
      obtain ⟨rfl, l', hl', rfl⟩ := hturn
      exact ⟨_, rfl, h.goesOn u.op _ l x fails _ l' hx (Prod.ext rfl hl')⟩
  ends u s place s' fails t hat hturn := by
    cases place with
    | locate => cases hturn
    | on l =>
      obtain ⟨x, rfl, hx⟩ := hat
      simp only [registry, Shard.insert_self, Shard.insert_insert, Prod.mk.injEq,
        Option.map_eq_none_iff] at hturn
      obtain ⟨rfl, hend⟩ := hturn
      rw [updateShard, ← h.ends u.op _ l x fails _ hx (Prod.ext rfl hend)]

/-- The updates of other metrics leave a metric alone. -/
theorem foldl_updateShard (us : List (Update O)) (s : Shard M) (name labels : String) :
    us.foldl (fun s u => updateShard m effect u s) s name labels =
      ((us.filter fun u => u.name = name ∧ u.labelKey = labels).map (·.op)).foldl
        (fun value op => some (effect op (value.getD m.new))) (s name labels) := by
  induction us generalizing s with
  | nil => rfl
  | cons u us ih =>
    rw [List.foldl_cons, ih, List.filter_cons]
    by_cases hkey : u.name = name ∧ u.labelKey = labels
    · obtain ⟨rfl, rfl⟩ := hkey
      simp [updateShard, Shard.insert_self]
    · rw [if_neg (by simpa using hkey), updateShard, Shard.insert_of_ne hkey]

theorem foldl_some (ops : List O) (x : M) :
    ops.foldl (fun value op => some (effect op (value.getD m.new))) (some x) =
      some (ops.foldl (fun value op => effect op value) x) := by
  induction ops generalizing x with
  | nil => rfl
  | cons op ops ih => exact ih _

theorem foldl_none (ops : List O) :
    ops.foldl (fun value op => some (effect op (value.getD m.new))) none = after m.new effect ops := by
  cases ops with
  | nil => rfl
  | cons op ops => exact foldl_some ops _

/-- A shard that nobody is updating has for each metric what its finished updates come to. -/
theorem registry_serial (h : m.Sound effect At) (hc : Reaches (registry m shard).step start c)
    (hfree : c.shared.owner (shard name) = none) :
    c.shared.cell (shard name) name labels = after m.new effect (finished shard c name labels) := by
  have hserial := Guarded.Serial.of_reaches (registry_atomic h) hc
  rw [hserial.free _ hfree, Guarded.Cells.folded, foldl_updateShard]
  exact foldl_none _

/-! ## What a renderer reads -/

theorem counter_exact {c : System UInt64 UInt64 Unit}
    (hc : Reaches (registry Counter.metric shard).step start c)
    (hfree : c.shared.owner (shard name) = none) :
    c.shared.cell (shard name) name labels =
      after 0 Counter.incBy (finished shard c name labels) :=
  registry_serial Metric.counter_sound hc hfree

variable [DecidableEq F] {fl : Floats F}

/-- No increment, decrement or store of a gauge is lost, whatever the threads do and however often
the exchanges fail: a renderer reads what the finished calls give when done one by one. -/
theorem gauge_exact {c : System F (Gauge.Op F) (Gauge.Place F)}
    (hc : Reaches (registry (Gauge.metric fl) shard).step start c)
    (hfree : c.shared.owner (shard name) = none) :
    c.shared.cell (shard name) name labels =
      after fl.zero (Gauge.apply fl) (finished shard c name labels) :=
  registry_serial Metric.gauge_sound hc hfree

def intFloats : Floats Int := ⟨0, 1, 1000, (· + ·), (· - ·), fun a b => decide (a ≤ b)⟩

/-- A gauge goes up twice while a third call waits for the lock. -/
def twoIncrements : List (Guarded.Action (Update (Gauge.Op Int)) Bool) :=
  [.call ⟨"open", none, .inc⟩, .call ⟨"open", none, .dec⟩, .call ⟨"open", none, .inc⟩] ++
    [false, false, false, true, false, false].map (.move 0) ++ List.replicate 4 (.move 2 false)

theorem gauge_exact_twoIncrements :
    ∃ c : System Int (Gauge.Op Int) (Gauge.Place Int),
      exec (registry (Gauge.metric intFloats) fun _ => 0).step start twoIncrements = some c ∧
      c.shared.cell 0 "open" "" = some 2 ∧
      c.shared.cell 0 "open" "" =
        after 0 (Gauge.apply intFloats) (finished (fun _ => 0) c "open" "") :=
  ⟨_, rfl, rfl, @gauge_exact Int (fun _ => 0) "open" "" _ intFloats _ ⟨twoIncrements, rfl⟩ rfl⟩

omit [DecidableEq F] in
theorem foldl_observe (values : List F) (h : Histogram F) :
    values.foldl (fun h value => Histogram.observe fl value h) h =
      ⟨h.buckets.map fun b => (b.1, b.2 + UInt64.ofNat (values.countP fun v => fl.le v b.1)),
        values.foldl fl.add h.sum, h.count + UInt64.ofNat values.length⟩ := by
  induction values generalizing h with
  | nil => simp
  | cons value values ih =>
    rw [List.foldl_cons, ih, Histogram.observe]
    congr 1
    · rw [List.map_map]
      apply List.map_congr_left
      intro b _
      simp only [Function.comp_apply, Histogram.bump, List.countP_cons]
      split_ifs with hle
      · rw [UInt64.ofNat_add, UInt64.add_assoc, UInt64.add_comm 1]
        rfl
      · simp
    · rw [List.length_cons, UInt64.ofNat_add, UInt64.add_assoc, UInt64.add_comm 1]
      rfl

/-- A renderer reads a histogram as of one moment: every bucket counts the finished observations up
to its bound, the total counts all of them, and the last bucket is the total if all are numbers. -/
theorem histogram_snapshot {bounds : List F} {c : System (Histogram F) F (Histogram.Place F)}
    (hc : Reaches (registry (Histogram.metric fl bounds) shard).step start c)
    (hfree : c.shared.owner (shard name) = none) {h : Histogram F}
    (hread : c.shared.cell (shard name) name labels = some h) :
    h.buckets = (bounds ++ [fl.infinity]).map (fun bound =>
        (bound, UInt64.ofNat ((finished shard c name labels).countP fun v => fl.le v bound))) ∧
      h.sum = (finished shard c name labels).foldl fl.add fl.zero ∧
      h.count = UInt64.ofNat (finished shard c name labels).length ∧
      ((∀ v ∈ finished shard c name labels, fl.le v fl.infinity = true) →
        h.buckets.getLast?.map Prod.snd = some h.count) := by
  rw [registry_serial (Metric.histogram_sound bounds) hc hfree] at hread
  generalize finished shard c name labels = values at hread ⊢
  have hh : h = values.foldl (fun h value => Histogram.observe fl value h) (Histogram.new fl bounds) := by
    cases values with
    | nil => cases hread
    | cons value values => exact (Option.some.inj hread).symm
  rw [foldl_observe] at hh
  have hbuckets : h.buckets = (bounds ++ [fl.infinity]).map (fun bound =>
      (bound, UInt64.ofNat (values.countP fun v => fl.le v bound))) := by
    rw [hh]
    simp [Histogram.new, Function.comp_def]
  have hcount : h.count = UInt64.ofNat values.length := by
    rw [hh]
    simp [Histogram.new]
  refine ⟨hbuckets, by rw [hh]; rfl, hcount, fun hnumbers => ?_⟩
  have hall : (values.countP fun v => fl.le v fl.infinity) = values.length :=
    List.countP_eq_length.mpr hnumbers
  rw [hbuckets, hcount, List.map_append, List.map_singleton, List.getLast?_concat, hall]
  rfl

/-- Two threads observe; the exchange of the first fails once for no reason. -/
def twoObservations : List (Guarded.Action (Update Int) Bool) :=
  [.call ⟨"latency", none, 3⟩, .call ⟨"latency", none, 1⟩] ++
    [false, false, false, false, false, false, true, false, false].map (.move 0) ++
    List.replicate 7 (.move 1 false)

theorem histogram_snapshot_twoObservations :
    ∃ (c : System (Histogram Int) Int (Histogram.Place Int)) (h : Histogram Int),
      exec (registry (Histogram.metric intFloats [2]) fun _ => 0).step start twoObservations = some c ∧
      c.shared.cell 0 "latency" "" = some h ∧
      h.buckets = ([2] ++ [1000]).map (fun bound =>
        (bound, UInt64.ofNat ((finished (fun _ => 0) c "latency" "").countP fun v => decide (v ≤ bound)))) :=
  ⟨_, _, rfl, rfl, (@histogram_snapshot Int (fun _ => 0) "latency" "" _ intFloats [2] _
    ⟨twoObservations, rfl⟩ rfl _ rfl).1⟩

end Hypern.Telemetry
