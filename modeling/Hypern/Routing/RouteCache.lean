import Hypern.FastPath.JsonCache
import Hypern.Routing.Router

/-! `cache.rs` of the router: matched routes under the hashes of their paths. Like the cache of
JSON responses it makes room before it looks whether the key is there. -/

namespace Hypern.Routing

open FastPath Http Lib

variable {F : Type}

structure CachedRoute (F : Type) where
  route : Route F
  pathParams : StrMap
  hits : Nat
  lastAccess : Nat

def CachedRoute.new (route : Route F) (pathParams : StrMap) : CachedRoute F :=
  ⟨route, pathParams, 1, 0⟩

structure RouteCache (F : Type) where
  cache : Table UInt64 (CachedRoute F)
  maxSize : Nat
  accessCounter : Nat

namespace RouteCache

def new (maxSize : Nat) : RouteCache F := ⟨∅, maxSize, 0⟩

def get (s : RouteCache F) (pathHash : UInt64) : Option (CachedRoute F) × RouteCache F :=
  match s.cache.lookup pathHash with
  | some entry =>
    let entry := { entry with hits := (entry.hits + 1) % 2 ^ 64, lastAccess := s.accessCounter }
    (some entry, { s with
      cache := s.cache.insert pathHash entry
      accessCounter := (s.accessCounter + 1) % 2 ^ 64 })
  | none => (none, s)

def evictLru (s : RouteCache F) (order : List (Sigma fun _ : UInt64 => CachedRoute F)) :
    Table UInt64 (CachedRoute F) :=
  s.cache.evict (leastBelow (fun e => e.2.lastAccess) (2 ^ 64 - 1) order)

def insert (s : RouteCache F) (pathHash : UInt64) (route : Route F) (pathParams : StrMap)
    (order : List (Sigma fun _ : UInt64 => CachedRoute F)) : RouteCache F :=
  let cache := if s.maxSize ≤ s.cache.size then s.evictLru order else s.cache
  { s with cache := cache.insert pathHash (.new route pathParams) }

def clear (s : RouteCache F) : RouteCache F := { s with cache := ∅ }

end RouteCache

/-! ## Refreshing a key -/

/-- The entry that the loop meets first, of those with the least score, is that of the key; or no
score is below `u64::MAX`. -/
def Chosen {V : Type} (score : V → Nat) (order : List (Sigma fun _ : UInt64 => V)) (key : UInt64) :
    Prop :=
  ∀ e ∈ order.argmin fun e => score e.2, score e.2 < 2 ^ 64 - 1 → e.1 = key

/-- All entries of other keys that have not expired stay as they are. -/
def JsonKeeps (s t : JsonResponseCache) (key : UInt64) (clock : UInt64 → Core.Instant) : Prop :=
  ∀ other ≠ key, ∀ entry, s.cache.lookup other = some entry →
    entry.isExpired (clock other) = false → t.cache.lookup other = some entry

def RouteKeeps (s t : RouteCache F) (key : UInt64) : Prop :=
  ∀ other ≠ key, ∀ entry, s.cache.lookup other = some entry → t.cache.lookup other = some entry

/-- The entries that have not expired. -/
def unexpired (s : JsonResponseCache) (clock : UInt64 → Core.Instant) : Table UInt64 CachedJson :=
  s.cache.retain fun key entry => !entry.isExpired (clock key)

section

variable {s : JsonResponseCache} {clock : UInt64 → Core.Instant} {order : List CacheEntry}
  {key : UInt64}

theorem size_swept_lt_iff :
    (s.swept clock).size < s.maxSize ↔ (unexpired s clock).size < s.maxSize := by
  unfold JsonResponseCache.swept
  split_ifs with hfull
  · exact Iff.rfl
  · have hle : (unexpired s clock).size ≤ s.cache.size := Table.size_retain_le _ _
    exact iff_of_true (not_le.mp hfull) (hle.trans_lt (not_le.mp hfull))

theorem forall_victim_iff : (∀ e ∈ s.victim clock order, e.1 = key) ↔
    (unexpired s clock).size < s.maxSize ∨ Chosen CachedJson.hits order key := by
  unfold JsonResponseCache.victim Chosen
  rw [← size_swept_lt_iff, ← forall_leastBelow_iff]
  split_ifs with hfull
  · exact (or_iff_right (not_lt.mpr hfull)).symm
  · exact iff_of_true nofun (.inl (not_le.mp hfull))

theorem jsonKeeps_iff (horder : order.Perm (s.swept clock).entries) (data : List UInt8) (ttl : Nat)
    (now : Core.Instant) : JsonKeeps s (s.insertWithTtl key data ttl clock order now) key clock ↔
      (unexpired s clock).size < s.maxSize ∨ Chosen CachedJson.hits order key := by
  have hmem : ∀ e ∈ s.victim clock order, e ∈ (s.swept clock).entries := fun e he =>
    JsonResponseCache.mem_swept_of_victim horder he
  rw [← forall_victim_iff, ← Table.evict_insert_keeps_iff hmem (.new data ttl now),
    ← JsonResponseCache.cache_insertWithTtl]
  constructor
  · intro hkeeps other hother entry hswept
    by_cases hfull : s.maxSize ≤ s.cache.size
    · rw [JsonResponseCache.lookup_swept, if_pos hfull] at hswept
      obtain ⟨hlookup, hfresh⟩ := Option.filter_eq_some_iff.mp hswept
      exact hkeeps other hother entry hlookup (by simpa using hfresh)
    · -- below capacity neither loop runs, and expired entries stay as well
      have hroom : ¬ s.maxSize ≤ (s.swept clock).size := by
        rw [JsonResponseCache.swept, if_neg hfull]
        exact hfull
      have hnone : s.victim clock order = none := if_neg hroom
      rw [JsonResponseCache.lookup_insertWithTtl, if_neg hother, hnone, if_neg (by simp), hswept]
  · intro hkeeps other hother entry hlookup hfresh
    exact hkeeps other hother entry (JsonResponseCache.lookup_swept_of_fresh hlookup hfresh)

end

theorem routeKeeps_iff {s : RouteCache F} {order : List (Sigma fun _ : UInt64 => CachedRoute F)}
    {key : UInt64} (horder : order.Perm s.cache.entries) (route : Route F) (pathParams : StrMap) :
    RouteKeeps s (s.insert key route pathParams order) key ↔
      s.cache.size < s.maxSize ∨ Chosen CachedRoute.lastAccess order key := by
  unfold RouteKeeps Chosen
  rw [← forall_leastBelow_iff]
  by_cases hfull : s.maxSize ≤ s.cache.size
  · rw [or_iff_right (not_lt.mpr hfull)]
    have hmem : ∀ e ∈ leastBelow (fun e => CachedRoute.lastAccess e.2) (2 ^ 64 - 1) order,
        e ∈ s.cache.entries := fun e he => horder.mem_iff.mp (mem_of_leastBelow he)
    have hcache : (s.insert key route pathParams order).cache =
        AList.insert key (.new route pathParams) (s.evictLru order) := by
      show AList.insert key _ (if s.maxSize ≤ s.cache.size then _ else _) = _
      rw [if_pos hfull]
    rw [hcache]
    exact Table.evict_insert_keeps_iff hmem (.new route pathParams)
  · refine iff_of_true (fun other hother entry hlookup => ?_) (.inl (not_le.mp hfull))
    show (AList.insert key _ (if s.maxSize ≤ s.cache.size then _ else _)).lookup other = _
    rw [if_neg hfull, Table.lookup_insert_eq, if_neg hother, hlookup]

/-! ## Runs -/

/-- The calls, an insert with the order in which it comes to the keys. -/
inductive RouteCall (F : Type)
  | get (pathHash : UInt64)
  | insert (pathHash : UInt64) (route : Route F) (pathParams : StrMap) (order : List UInt64)
  | clear

namespace RouteCache

def step (s : RouteCache F) : RouteCall F → Option (RouteCache F)
  | .get pathHash => some (s.get pathHash).2
  | .insert pathHash route pathParams order =>
    if order.Perm s.cache.keys then
      some (s.insert pathHash route pathParams (s.cache.inOrder order))
    else none
  | .clear => some s.clear

/-- An insert of a key that is there leaves the others alone. -/
def RefreshKeeps (s : RouteCache F) (call : RouteCall F) : Prop :=
  ∀ key route pathParams order, call = .insert key route pathParams order → key ∈ s.cache →
    ∀ t, s.step call = some t → RouteKeeps s t key

/-- An insert of a key that is there finds room for one more, or its own entry is the one to go. -/
def RefreshFits (s : RouteCache F) (call : RouteCall F) : Prop :=
  ∀ key route pathParams order, call = .insert key route pathParams order → key ∈ s.cache →
    order.Perm s.cache.keys →
      s.cache.size < s.maxSize ∨ Chosen CachedRoute.lastAccess (s.cache.inOrder order) key

theorem refreshKeeps_iff {s : RouteCache F} {call : RouteCall F} :
    RefreshKeeps s call ↔ RefreshFits s call := by
  unfold RefreshKeeps RefreshFits
  apply forall_congr'; intro key
  apply forall_congr'; intro route
  apply forall_congr'; intro pathParams
  apply forall_congr'; intro order
  apply imp_congr_right
  rintro rfl
  apply imp_congr_right
  intro _
  simp only [step, Option.ite_none_right_eq_some, and_imp, Option.some.injEq]
  rw [forall_comm]
  apply imp_congr_right
  intro horder
  rw [forall_eq', routeKeeps_iff (Table.inOrder_perm horder)]

end RouteCache

namespace JsonCache

/-- An insert that comes with these readings of the clock and in this order. -/
def Inserts (key : UInt64) (clock : UInt64 → Core.Instant) (order : List CacheEntry) :
    CacheCall → Prop
  | .insert key' _ clock' order' _ => key' = key ∧ clock' = clock ∧ order' = order
  | .insertWithTtl key' _ _ clock' order' _ => key' = key ∧ clock' = clock ∧ order' = order
  | _ => False

def RefreshKeeps (s : JsonResponseCache) (call : CacheCall) : Prop :=
  ∀ key clock order, Inserts key clock order call → key ∈ s.cache →
    ∀ t, s.step call = some t → JsonKeeps s t key clock

def RefreshFits (s : JsonResponseCache) (call : CacheCall) : Prop :=
  ∀ key clock order, Inserts key clock order call → key ∈ s.cache →
    order.Perm (s.swept clock).entries →
      (unexpired s clock).size < s.maxSize ∨ Chosen CachedJson.hits order key

theorem keeps_of_step {s : JsonResponseCache} {call : CacheCall} {key : UInt64}
    {clock : UInt64 → Core.Instant} {order : List CacheEntry} (h : Inserts key clock order call) :
    (∀ t, s.step call = some t → JsonKeeps s t key clock) ↔
      (order.Perm (s.swept clock).entries →
        (unexpired s clock).size < s.maxSize ∨ Chosen CachedJson.hits order key) := by
  have hinsert : ∃ data ttl now, s.step call = if order.Perm (s.swept clock).entries then
      some (s.insertWithTtl key data ttl clock order now) else none := by
    cases call with
    | insert key' data clock' order' now =>
      obtain ⟨rfl, rfl, rfl⟩ := h
      exact ⟨data, s.defaultTtl, now, rfl⟩
    | insertWithTtl key' data ttl clock' order' now =>
      obtain ⟨rfl, rfl, rfl⟩ := h
      exact ⟨data, ttl, now, rfl⟩
    | get key' now => cases h
    | invalidate key' => cases h
    | clear => cases h
  obtain ⟨data, ttl, now, hstep⟩ := hinsert
  rw [hstep]
  simp only [Option.ite_none_right_eq_some, and_imp, Option.some.injEq]
  rw [forall_comm]
  apply imp_congr_right
  intro horder
  rw [forall_eq', jsonKeeps_iff horder]

theorem refreshKeeps_iff {s : JsonResponseCache} {call : CacheCall} :
    RefreshKeeps s call ↔ RefreshFits s call := by
  unfold RefreshKeeps RefreshFits
  apply forall_congr'; intro key
  apply forall_congr'; intro clock
  apply forall_congr'; intro order
  apply imp_congr_right
  intro hinserts
  rw [keeps_of_step hinserts]

end JsonCache

/-- In a run of either cache no refresh touches another entry, exactly if each finds room for one
more or the entry to go is that of its own key. -/
theorem refresh_keeps_iff (maxSize defaultTtl : Nat) (jsonCalls : List CacheCall)
    (routeCalls : List (RouteCall F)) :
    (Along JsonResponseCache.step JsonCache.RefreshKeeps (.new maxSize defaultTtl) jsonCalls ↔
        Along JsonResponseCache.step JsonCache.RefreshFits (.new maxSize defaultTtl) jsonCalls) ∧
      (Along RouteCache.step RouteCache.RefreshKeeps (.new maxSize) routeCalls ↔
        Along RouteCache.step RouteCache.RefreshFits (.new maxSize) routeCalls) := by
  constructor
  · constructor
    · exact fun h => h.mono fun _ _ => JsonCache.refreshKeeps_iff.mp
    · exact fun h => h.mono fun _ _ => JsonCache.refreshKeeps_iff.mpr
  · constructor
    · exact fun h => h.mono fun _ _ => RouteCache.refreshKeeps_iff.mp
    · exact fun h => h.mono fun _ _ => RouteCache.refreshKeeps_iff.mpr

/-! ## Full caches -/

def emptyList : CachedJson := .new [91, 93] 60 Core.Instant.zero

/-- Two responses fill the cache, and the second is written anew. -/
def jsonRefresh : List CacheCall :=
  [.insert 1 [91, 93] (fun _ => Core.Instant.zero) [] Core.Instant.zero,
    .insert 2 [91, 93] (fun _ => Core.Instant.zero) [⟨1, emptyList⟩] Core.Instant.zero,
    .insert 2 [91, 49, 93] (fun _ => Core.Instant.zero) [⟨1, emptyList⟩, ⟨2, emptyList⟩]
      Core.Instant.zero]

def home : Route Unit := ⟨"/", (), "GET"⟩

def routeRefresh : List (RouteCall Unit) :=
  [.insert 1 home ∅ [], .insert 2 home ∅ [1], .insert 2 home ∅ [1, 2]]

/-- The first entry goes, although its place is not needed. -/
theorem refresh_evicts :
    ¬ Along JsonResponseCache.step JsonCache.RefreshKeeps (.new 2 60) jsonRefresh ∧
      ¬ Along RouteCache.step RouteCache.RefreshKeeps (.new 2) routeRefresh := by
  constructor
  · intro h
    have hlast := ((h.2 _ rfl).2 _ rfl).1
    have hkeeps := hlast 2 _ _ ⟨rfl, rfl, rfl⟩ (by decide) _ rfl 1 (by decide) emptyList rfl rfl
    cases hkeeps
  · intro h
    have hlast := ((h.2 _ rfl).2 _ rfl).1
    have hkeeps := hlast 2 _ _ _ rfl (by decide) _ rfl 1 (by decide) _ rfl
    cases hkeeps

end Hypern.Routing
