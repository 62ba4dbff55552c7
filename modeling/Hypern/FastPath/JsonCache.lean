import Hypern.Core.Context
import Hypern.Lib.Eviction
import Hypern.Lib.History

/-! `json_cache.rs`: JSON responses under the hashes of their keys, each for a time. The lock is
held during a call, so the calls come one after the other; the clock is read anew for every entry
that is tested, and the order in which the map is iterated is up to the map. -/

namespace Hypern.FastPath

open Lib

deriving instance DecidableEq for Core.Instant

structure CachedJson where
  data : List UInt8
  contentType : String
  createdAt : Core.Instant
  ttl : Nat
  hits : Nat
  deriving DecidableEq

namespace CachedJson

def new (data : List UInt8) (ttl : Nat) (now : Core.Instant) : CachedJson :=
  ⟨data, "application/json; charset=utf-8", now, ttl, 0⟩

def isExpired (entry : CachedJson) (now : Core.Instant) : Bool := entry.ttl < entry.createdAt.elapsed now

end CachedJson

abbrev CacheEntry := Sigma fun _ : UInt64 => CachedJson

structure JsonResponseCache where
  cache : Table UInt64 CachedJson
  maxSize : Nat
  defaultTtl : Nat

namespace JsonResponseCache

def new (maxSize defaultTtl : Nat) : JsonResponseCache := ⟨∅, maxSize, defaultTtl⟩

def get (s : JsonResponseCache) (key : UInt64) (now : Core.Instant) :
    Option (List UInt8) × JsonResponseCache :=
  match s.cache.lookup key with
  | some entry =>
    if entry.isExpired now then (none, { s with cache := s.cache.erase key })
    else (some entry.data,
      { s with cache := s.cache.insert key { entry with hits := (entry.hits + 1) % 2 ^ 64 } })
  | none => (none, s)

def evictExpired (cache : Table UInt64 CachedJson) (clock : UInt64 → Core.Instant) :
    Table UInt64 CachedJson := cache.retain fun key entry => !entry.isExpired (clock key)

def evictLru (cache : Table UInt64 CachedJson) (order : List CacheEntry) :
    Table UInt64 CachedJson := cache.evict (leastBelow (fun e => e.2.hits) (2 ^ 64 - 1) order)

/-- The cache after the first test of its size. -/
def swept (s : JsonResponseCache) (clock : UInt64 → Core.Instant) : Table UInt64 CachedJson :=
  if s.maxSize ≤ s.cache.size then evictExpired s.cache clock else s.cache

def insertWithTtl (s : JsonResponseCache) (key : UInt64) (data : List UInt8) (ttl : Nat)
    (clock : UInt64 → Core.Instant) (order : List CacheEntry) (now : Core.Instant) : JsonResponseCache :=
  let cache := s.swept clock
  let cache := if s.maxSize ≤ cache.size then evictLru cache order else cache
  { s with cache := cache.insert key (.new data ttl now) }

def insert (s : JsonResponseCache) (key : UInt64) (data : List UInt8) (clock : UInt64 → Core.Instant)
    (order : List CacheEntry) (now : Core.Instant) : JsonResponseCache :=
  s.insertWithTtl key data s.defaultTtl clock order now

def invalidate (s : JsonResponseCache) (key : UInt64) : JsonResponseCache :=
  { s with cache := s.cache.erase key }

def clear (s : JsonResponseCache) : JsonResponseCache := { s with cache := ∅ }

end JsonResponseCache

/-! ## Runs -/

/-- The calls, each with what it reads of the clock and the order in which it goes through the
entries. -/
inductive CacheCall
  | get (key : UInt64) (now : Core.Instant)
  | insert (key : UInt64) (data : List UInt8) (clock : UInt64 → Core.Instant) (order : List CacheEntry)
    (now : Core.Instant)
  | insertWithTtl (key : UInt64) (data : List UInt8) (ttl : Nat) (clock : UInt64 → Core.Instant)
    (order : List CacheEntry) (now : Core.Instant)
  | invalidate (key : UInt64)
  | clear

namespace JsonResponseCache

def step (s : JsonResponseCache) : CacheCall → Option JsonResponseCache
  | .get key now => some (s.get key now).2
  | .insert key data clock order now =>
    if order.Perm (s.swept clock).entries then some (s.insert key data clock order now) else none
  | .insertWithTtl key data ttl clock order now =>
    if order.Perm (s.swept clock).entries then some (s.insertWithTtl key data ttl clock order now)
    else none
  | .invalidate key => some (s.invalidate key)
  | .clear => some s.clear

variable {s t : JsonResponseCache} {key key' : UInt64} {entry : CachedJson}
  {clock : UInt64 → Core.Instant} {order : List CacheEntry} {now : Core.Instant} {data : List UInt8}
  {ttl : Nat}

/-! ## What a call does -/

theorem lookup_swept (s : JsonResponseCache) (clock : UInt64 → Core.Instant) (key : UInt64) :
    (s.swept clock).lookup key = if s.maxSize ≤ s.cache.size then
      (s.cache.lookup key).filter (fun entry => !entry.isExpired (clock key))
    else s.cache.lookup key := by
  unfold swept
  split_ifs
  · exact Table.lookup_retain _ _ key
  · rfl

theorem lookup_of_swept (h : (s.swept clock).lookup key = some entry) :
    s.cache.lookup key = some entry := by
  rw [lookup_swept] at h
  split_ifs at h
  · exact (Option.filter_eq_some_iff.mp h).1
  · exact h

theorem lookup_swept_of_fresh (h : s.cache.lookup key = some entry)
    (hfresh : entry.isExpired (clock key) = false) :
    (s.swept clock).lookup key = some entry := by
  rw [lookup_swept, h]
  simp [Option.filter, hfresh]

/-- The entry that has to go for the new one. -/
def victim (s : JsonResponseCache) (clock : UInt64 → Core.Instant) (order : List CacheEntry) :
    Option CacheEntry :=
  if s.maxSize ≤ (s.swept clock).size then leastBelow (fun e => e.2.hits) (2 ^ 64 - 1) order
  else none

theorem cache_insertWithTtl : (s.insertWithTtl key data ttl clock order now).cache =
    ((s.swept clock).evict (s.victim clock order)).insert key (.new data ttl now) := by
  have hroom : (if s.maxSize ≤ (s.swept clock).size then evictLru (s.swept clock) order
      else s.swept clock) = (s.swept clock).evict (s.victim clock order) := by
    unfold victim
    split_ifs <;> rfl
  rw [← hroom]
  rfl

theorem lookup_insertWithTtl : (s.insertWithTtl key data ttl clock order now).cache.lookup key' =
    if key' = key then some (.new data ttl now)
    else if ∃ e ∈ s.victim clock order, e.1 = key' then none
    else (s.swept clock).lookup key' := by
  rw [cache_insertWithTtl, Table.lookup_insert_eq, Table.lookup_evict]

theorem leastBelow_of_victim {e : CacheEntry} (h : s.victim clock order = some e) :
    leastBelow (fun e => e.2.hits) (2 ^ 64 - 1) order = some e := by
  unfold victim at h
  split_ifs at h
  exact h

theorem mem_swept_of_victim {e : CacheEntry} (horder : order.Perm (s.swept clock).entries)
    (h : s.victim clock order = some e) : e ∈ (s.swept clock).entries :=
  horder.mem_iff.mp (mem_of_leastBelow (leastBelow_of_victim h))

/-! ## What is returned -/

/-- What an entry was made of. -/
structure Written where
  data : List UInt8
  createdAt : Core.Instant
  ttl : Nat

def written (entry : CachedJson) : Written := ⟨entry.data, entry.createdAt, entry.ttl⟩

/-- What a call says about the entry of a key: that it is new, that there is none, or nothing. -/
def verdict (defaultTtl : Nat) (key : UInt64) : CacheCall → Option (Option Written)
  | .get _ _ => none
  | .insert other data _ _ now =>
    if key = other then some (some ⟨data, now, defaultTtl⟩) else none
  | .insertWithTtl other data ttl _ _ now =>
    if key = other then some (some ⟨data, now, ttl⟩) else none
  | .invalidate other => if key = other then some none else none
  | .clear => some none

/-- Every entry is what was written last, but some may be gone. -/
def Backed (maxSize defaultTtl : Nat) (s : JsonResponseCache) (w : UInt64 → Option Written) : Prop :=
  s.maxSize = maxSize ∧ s.defaultTtl = defaultTtl ∧
    ∀ key entry, s.cache.lookup key = some entry → w key = some (written entry)

theorem Backed.insertWithTtl {maxSize defaultTtl : Nat} {w : UInt64 → Option Written}
    (h : Backed maxSize defaultTtl s w) : Backed maxSize defaultTtl
      (s.insertWithTtl key data ttl clock order now)
      fun k => ((if k = key then some (some ⟨data, now, ttl⟩) else none).getD (w k)) := by
  obtain ⟨hsize, hdefault, hbacked⟩ := h
  refine ⟨hsize, hdefault, fun k entry hk => ?_⟩
  dsimp only
  rw [lookup_insertWithTtl] at hk
  by_cases hkey : k = key
  · rw [if_pos hkey] at hk ⊢
    cases hk
    rfl
  · rw [if_neg hkey] at hk ⊢
    split_ifs at hk
    exact hbacked k entry (lookup_of_swept hk)

theorem Backed.get {maxSize defaultTtl : Nat} {w : UInt64 → Option Written}
    (h : Backed maxSize defaultTtl s w) : Backed maxSize defaultTtl (s.get key now).2 w := by
  obtain ⟨hsize, hdefault, hbacked⟩ := h
  unfold JsonResponseCache.get
  cases hlookup : s.cache.lookup key with
  | none => exact ⟨hsize, hdefault, hbacked⟩
  | some found =>
    dsimp only
    split_ifs
    · refine ⟨hsize, hdefault, fun k entry hk => hbacked k entry ?_⟩
      rw [Table.lookup_erase_eq] at hk
      split_ifs at hk
      exact hk
    · refine ⟨hsize, hdefault, fun k entry hk => ?_⟩
      rw [Table.lookup_insert_eq] at hk
      split_ifs at hk with hkey
      · cases hk
        rw [hkey]
        exact hbacked key found hlookup
      · exact hbacked k entry hk

theorem Backed.step {maxSize defaultTtl : Nat} {w : UInt64 → Option Written} {call : CacheCall}
    (h : Backed maxSize defaultTtl s w) (hstep : s.step call = some t) :
    Backed maxSize defaultTtl t fun k => (verdict defaultTtl k call).getD (w k) := by
  cases call with
  | get key now =>
    cases hstep
    exact h.get
  | insert key data clock order now =>
    obtain ⟨-, heq⟩ := Option.ite_none_right_eq_some.mp hstep
    cases heq
    have hdefault : s.defaultTtl = defaultTtl := h.2.1
    subst hdefault
    exact h.insertWithTtl
  | insertWithTtl key data ttl clock order now =>
    obtain ⟨-, heq⟩ := Option.ite_none_right_eq_some.mp hstep
    cases heq
    exact h.insertWithTtl
  | invalidate key =>
    cases hstep
    obtain ⟨hsize, hdefault, hbacked⟩ := h
    refine ⟨hsize, hdefault, fun k entry hk => ?_⟩
    have hlookup : (s.cache.erase key).lookup k = some entry := hk
    rw [Table.lookup_erase_eq] at hlookup
    split_ifs at hlookup with hkey
    simp only [verdict, if_neg hkey]
    exact hbacked k entry hlookup
  | clear =>
    cases hstep
    exact ⟨h.1, h.2.1, fun k entry hk => nomatch hk⟩

/-! ## How many entries there are -/

/-- No hit count has reached `u64::MAX`. -/
def HitsBelow (s : JsonResponseCache) : Prop :=
  ∀ e ∈ s.cache.entries, e.2.hits < 2 ^ 64 - 1

theorem mem_of_swept {e : CacheEntry} (h : e ∈ (s.swept clock).entries) : e ∈ s.cache.entries :=
  AList.mem_lookup_iff.mp (lookup_of_swept (AList.mem_lookup_iff.mpr h))

/-- Without a victim there was nothing to go through. -/
theorem size_swept_of_no_victim (hhits : HitsBelow s) (horder : order.Perm (s.swept clock).entries)
    (hfull : s.maxSize ≤ (s.swept clock).size) (h : s.victim clock order = none) :
    (s.swept clock).size = 0 := by
  have hempty : order = [] := by
    by_contra hne
    obtain ⟨e, he⟩ := exists_leastBelow hne fun e he =>
      hhits e (mem_of_swept (horder.mem_iff.mp he))
    have hvictim : s.victim clock order = some e := (if_pos hfull).trans he
    rw [h] at hvictim
    cases hvictim
  have hentries : (s.swept clock).entries = [] := by
    rw [hempty] at horder
    exact horder.symm.eq_nil
  show (List.map Sigma.fst (s.swept clock).entries).length = 0
  rw [hentries]
  rfl

/-- With the victim gone there is room for one more. -/
theorem size_insertWithTtl (hsize : s.cache.size ≤ max s.maxSize 1) (hhits : HitsBelow s)
    (horder : order.Perm (s.swept clock).entries) :
    (s.insertWithTtl key data ttl clock order now).cache.size ≤ max s.maxSize 1 := by
  have hswept : (s.swept clock).size ≤ s.cache.size := by
    unfold swept
    split_ifs
    · exact Table.size_retain_le _ _
    · exact le_rfl
  have hinsert := Table.size_insert_le ((s.swept clock).evict (s.victim clock order)) key
    (.new data ttl now)
  rw [cache_insertWithTtl]
  refine hinsert.trans ?_
  by_cases hfull : s.maxSize ≤ (s.swept clock).size
  · cases hvictim : s.victim clock order with
    | none =>
      -- nothing is left, and the one new entry fits even when `max_size` is zero
      have hzero := size_swept_of_no_victim hhits horder hfull hvictim
      rw [Table.size_evict_none]
      omega
    | some e =>
      have hgone := Table.size_evict_some (mem_swept_of_victim horder hvictim)
      omega
  · have hnone : s.victim clock order = none := if_neg hfull
    rw [hnone, Table.size_evict_none]
    omega

theorem size_get_le : (s.get key now).2.cache.size ≤ s.cache.size := by
  unfold get
  cases hlookup : s.cache.lookup key with
  | none => exact le_rfl
  | some found =>
    dsimp only
    split_ifs
    · exact Table.size_erase_le _ _
    · have hmem : key ∈ s.cache.keys := Table.mem_iff_lookup.mpr ⟨found, hlookup⟩
      show (AList.insert key _ s.cache).keys.length ≤ s.cache.keys.length
      rw [AList.keys_insert, List.length_cons, List.length_erase_of_mem hmem]
      have hpos := List.length_pos_of_mem hmem
      omega

def Bounded (maxSize : Nat) (s : JsonResponseCache) : Prop :=
  s.maxSize = maxSize ∧ s.cache.size ≤ max maxSize 1

theorem Bounded.step {maxSize : Nat} {call : CacheCall} (h : Bounded maxSize s) (hhits : HitsBelow s)
    (hstep : s.step call = some t) : Bounded maxSize t := by
  obtain ⟨rfl, hsize⟩ := h
  cases call with
  | get key now =>
    cases hstep
    have hmax : (s.get key now).2.maxSize = s.maxSize := by
      unfold JsonResponseCache.get
      cases s.cache.lookup key with
      | none => rfl
      | some found =>
        dsimp only
        split_ifs <;> rfl
    exact ⟨hmax, size_get_le.trans hsize⟩
  | insert key data clock order now =>
    obtain ⟨horder, heq⟩ := Option.ite_none_right_eq_some.mp hstep
    cases heq
    exact ⟨rfl, size_insertWithTtl hsize hhits horder⟩
  | insertWithTtl key data ttl clock order now =>
    obtain ⟨horder, heq⟩ := Option.ite_none_right_eq_some.mp hstep
    cases heq
    exact ⟨rfl, size_insertWithTtl hsize hhits horder⟩
  | invalidate key =>
    cases hstep
    exact ⟨rfl, (Table.size_erase_le _ _).trans hsize⟩
  | clear =>
    cases hstep
    exact ⟨rfl, Nat.zero_le _⟩

/-! ## What an insert removes -/

/-- For another key the entry stays as it is, or it was expired, or it is the one that had to go,
and then no entry that has not expired has fewer hits. No other key gets an entry. -/
def RemovesLittle (s t : JsonResponseCache) (key : UInt64) (clock : UInt64 → Core.Instant) : Prop :=
  ∃ victim : Option CacheEntry, ∀ other ≠ key,
    (∀ entry, t.cache.lookup other = some entry → s.cache.lookup other = some entry) ∧
    ∀ entry, s.cache.lookup other = some entry → t.cache.lookup other = none →
      entry.isExpired (clock other) = true ∨
      victim = some ⟨other, entry⟩ ∧ ∀ k e, s.cache.lookup k = some e →
        e.isExpired (clock k) = false → entry.hits ≤ e.hits

theorem removesLittle_insertWithTtl (horder : order.Perm (s.swept clock).entries) :
    RemovesLittle s (s.insertWithTtl key data ttl clock order now) key clock := by
  refine ⟨s.victim clock order, fun other hother => ⟨fun entry ht => ?_, fun entry hs ht => ?_⟩⟩
  · rw [lookup_insertWithTtl, if_neg hother] at ht
    split_ifs at ht
    exact lookup_of_swept ht
  · rw [lookup_insertWithTtl, if_neg hother] at ht
    by_cases hexpired : entry.isExpired (clock other) = true
    · exact .inl hexpired
    · right
      have hswept := lookup_swept_of_fresh hs (eq_false_of_ne_true hexpired)
      split_ifs at ht with hvictim
      · obtain ⟨e, he, rfl⟩ := hvictim
        have hmem := AList.mem_lookup_iff.mpr (mem_swept_of_victim horder he)
        have hentry : e.2 = entry := Option.some.inj (hmem.symm.trans hswept)
        refine ⟨hentry ▸ he, fun k e' hk hfresh => ?_⟩
        -- whatever has not expired is still there when the least hits are looked for
        have hmem' := AList.mem_lookup_iff.mp (lookup_swept_of_fresh hk hfresh)
        rw [← hentry]
        exact le_of_leastBelow (leastBelow_of_victim he) _ (horder.mem_iff.mpr hmem')
      · rw [hswept] at ht
        cases ht

/-! ## Every run -/

/-- The key of an insert, and what it reads of the clock at the entries it tests. -/
def inserts : CacheCall → Option (UInt64 × (UInt64 → Core.Instant))
  | .insert key _ clock _ _ => some (key, clock)
  | .insertWithTtl key _ _ clock _ _ => some (key, clock)
  | _ => none

/-- An insert, by either of its names, is one of `insertWithTtl`. -/
theorem step_of_inserts {call : CacheCall} {p : UInt64 × (UInt64 → Core.Instant)}
    (hp : p ∈ inserts call) (hstep : s.step call = some t) :
    ∃ data ttl order now, order.Perm (s.swept p.2).entries ∧
      s.insertWithTtl p.1 data ttl p.2 order now = t := by
  cases call with
  | insert key data clock order now =>
    obtain ⟨horder, heq⟩ := Option.ite_none_right_eq_some.mp hstep
    obtain rfl : (key, clock) = p := Option.some.inj hp
    exact ⟨data, s.defaultTtl, order, now, horder, Option.some.inj heq⟩
  | insertWithTtl key data ttl clock order now =>
    obtain ⟨horder, heq⟩ := Option.ite_none_right_eq_some.mp hstep
    obtain rfl : (key, clock) = p := Option.some.inj hp
    exact ⟨data, ttl, order, now, horder, Option.some.inj heq⟩
  | get key now => cases hp
  | invalidate key => cases hp
  | clear => cases hp

/-- What is returned was written last for the key, was not taken away since, and is not too old. -/
def Fresh (defaultTtl : Nat) (calls : List CacheCall) (s : JsonResponseCache) : Prop :=
  ∀ key now data, (s.get key now).1 = some data →
    ∃ w, lastVerdict (verdict defaultTtl key) none calls = some w ∧ w.data = data ∧
      w.createdAt.elapsed now ≤ w.ttl

theorem Backed.of_get {maxSize defaultTtl : Nat} {w : UInt64 → Option Written}
    (h : Backed maxSize defaultTtl s w) (hget : (s.get key now).1 = some data) :
    ∃ x, w key = some x ∧ x.data = data ∧ x.createdAt.elapsed now ≤ x.ttl := by
  unfold JsonResponseCache.get at hget
  cases hlookup : s.cache.lookup key with
  | none =>
    rw [hlookup] at hget
    cases hget
  | some entry =>
    rw [hlookup] at hget
    dsimp only at hget
    split_ifs at hget with hexpired
    refine ⟨written entry, h.2.2 key entry hlookup, Option.some.inj hget, ?_⟩
    have hage : ¬ entry.ttl < entry.createdAt.elapsed now := fun hlt =>
      hexpired (decide_eq_true hlt)
    exact not_lt.mp hage

theorem backed_new (maxSize defaultTtl : Nat) :
    Backed maxSize defaultTtl (new maxSize defaultTtl) fun _ => none :=
  ⟨rfl, rfl, fun _ _ hk => nomatch hk⟩

/-- Every run of the cache in which the hits can be counted. -/
theorem run_sound {maxSize defaultTtl : Nat} {calls : List CacheCall}
    (hexec : exec step (new maxSize defaultTtl) calls = some s)
    (hhits : Always step HitsBelow (new maxSize defaultTtl) calls) :
    Fresh defaultTtl calls s ∧ s.cache.size ≤ max maxSize 1 ∧
      ∀ call t, s.step call = some t → ∀ p ∈ inserts call, RemovesLittle s t p.1 p.2 := by
  have hbacked : Backed maxSize defaultTtl s
      fun key => lastVerdict (verdict defaultTtl key) none calls :=
    exec_tracks (fun s call t w hs hstep => hs.step hstep) (backed_new maxSize defaultTtl) hexec
  have hbounded : Bounded maxSize s :=
    hhits.along.invariant (Bounded maxSize) (fun s call t hs hbelow hstep => hs.step hbelow hstep)
      ⟨rfl, Nat.zero_le _⟩ hexec
  refine ⟨fun _ _ _ => hbacked.of_get, hbounded.2, fun call t hstep p hp => ?_⟩
  obtain ⟨data, ttl, order, now, horder, rfl⟩ := step_of_inserts hp hstep
  exact removesLittle_insertWithTtl horder

def clockAt (seconds : Nat) (h : seconds < 2 ^ 64) : Core.Instant := ⟨seconds * 10 ^ 9, by omega⟩

/-- `[123, 125]` under the key `7` in a cache for one response. -/
def oneResponse : JsonResponseCache :=
  (new 1 60).insertWithTtl 7 [123, 125] (10 ^ 9) (fun _ => clockAt 0 (by decide)) []
    (clockAt 0 (by decide))

theorem oneResponse_sound :
    Fresh 60 [.insertWithTtl 7 [123, 125] (10 ^ 9) (fun _ => clockAt 0 (by decide)) []
      (clockAt 0 (by decide))] oneResponse ∧ oneResponse.cache.size ≤ max 1 1 ∧
      ∀ call t, oneResponse.step call = some t → ∀ p ∈ inserts call,
        RemovesLittle oneResponse t p.1 p.2 := by
  refine run_sound (s := oneResponse) rfl ⟨fun e he => (nomatch he), fun t ht => ?_⟩
  have hone : oneResponse = t := Option.some.inj ht
  subst hone
  intro e he
  rw [List.mem_singleton.mp he]
  decide

end JsonResponseCache

end Hypern.FastPath
