import Hypern.FastPath.JsonCache
import Hypern.Lib.Text
import Hypern.Lib.Utf8RoundTrip
import Hypern.Middleware.Context

/-! `CacheMiddleware` of `builtin.rs` and the keys under which it looks for responses. -/

namespace Hypern.Middleware

open FastPath Http Lib

/-- `JsonResponseCache::compute_key_hash` -/
def computeKeyHash (xxh3_64 : List UInt8 → UInt64) (route params : String) : UInt64 :=
  xxh3_64 (utf8 (route ++ ":" ++ params))

/-- What a request is cached by. -/
structure CacheKey where
  path : String
  query : String
  deriving DecidableEq

namespace CacheKey

def text (k : CacheKey) : String := k.path ++ ":" ++ k.query

def hash (xxh3_64 : List UInt8 → UInt64) (k : CacheKey) : UInt64 :=
  computeKeyHash xxh3_64 k.path k.query

/-- The path of the second begins with that of the first, a colon and the start of its query. -/
def Overlaps (k l : CacheKey) : Prop :=
  ∃ r : String, l.path = k.path ++ ":" ++ r ∧ k.query = r ++ ":" ++ l.query

/-- The hash tells the texts of the two apart, if they differ. -/
def CollisionFree (xxh3_64 : List UInt8 → UInt64) (k l : CacheKey) : Prop :=
  Set.InjOn xxh3_64 {utf8 k.text, utf8 l.text}

variable {xxh3_64 : List UInt8 → UInt64} {k l : CacheKey}

theorem toList_colon (a b : String) : (a ++ ":" ++ b).toList = a.toList ++ ':' :: b.toList := by
  have hcolon : ":".toList = [':'] := by decide
  rw [String.toList_append, String.toList_append, hcolon, List.append_assoc]
  rfl

theorem overlaps_iff : k.Overlaps l ↔ ∃ r, l.path.toList = k.path.toList ++ ':' :: r ∧
    k.query.toList = r ++ ':' :: l.query.toList := by
  constructor
  · rintro ⟨r, hpath, hquery⟩
    refine ⟨r.toList, ?_, ?_⟩
    · rw [hpath, toList_colon]
    · rw [hquery, toList_colon]
  · rintro ⟨r, hpath, hquery⟩
    refine ⟨String.ofList r, ?_, ?_⟩
    · apply String.toList_injective
      rw [hpath, toList_colon, String.toList_ofList]
    · apply String.toList_injective
      rw [hquery, toList_colon, String.toList_ofList]

theorem text_eq_iff : k.text = l.text ↔ k = l ∨ k.Overlaps l ∨ l.Overlaps k := by
  have htext : ∀ m : CacheKey, m.text.toList = m.path.toList ++ ':' :: m.query.toList := fun m =>
    toList_colon m.path m.query
  have hkey : k = l ↔ k.path.toList = l.path.toList ∧ k.query.toList = l.query.toList := by
    rw [String.toList_inj, String.toList_inj]
    cases k
    cases l
    exact CacheKey.mk.injEq .. ▸ Iff.rfl
  rw [← String.toList_inj, htext, htext, append_cons_inj_iff, hkey, overlaps_iff, overlaps_iff]

/-- A key overlaps no key that has the same text by being the same. -/
theorem not_overlaps_self (k : CacheKey) : ¬ k.Overlaps k := by
  rw [overlaps_iff]
  rintro ⟨r, hpath, -⟩
  have hlength := congrArg List.length hpath
  rw [List.length_append, List.length_cons] at hlength
  omega

theorem text_eq_of_hash (hfree : CollisionFree xxh3_64 k l)
    (h : k.hash xxh3_64 = l.hash xxh3_64) : k.text = l.text := by
  have hutf8 : utf8 k.text = utf8 l.text := hfree (.inl rfl) (.inr rfl) h
  rw [← fromUtf8Lossy_utf8 k.text, hutf8, fromUtf8Lossy_utf8]

/-- The hashes separate two keys exactly if these do not overlap. -/
theorem separates_iff (hfree : CollisionFree xxh3_64 k l) :
    (k.hash xxh3_64 = l.hash xxh3_64 → k = l) ↔ ¬ k.Overlaps l ∧ ¬ l.Overlaps k := by
  constructor
  · intro hseparates
    have hoverlaps : k.Overlaps l ∨ l.Overlaps k → False := by
      intro h
      have htext := text_eq_iff.mpr (.inr h)
      have hkey : k = l := hseparates (congrArg (fun t => xxh3_64 (utf8 t)) htext)
      subst hkey
      exact h.elim (not_overlaps_self k) (not_overlaps_self k)
    exact ⟨fun h => hoverlaps (.inl h), fun h => hoverlaps (.inr h)⟩
  · rintro ⟨hkl, hlk⟩ hhash
    rcases text_eq_iff.mp (text_eq_of_hash hfree hhash) with h | h | h
    · exact h
    · exact absurd h hkl
    · exact absurd h hlk

end CacheKey

/-! ## The middleware -/

structure CacheConfig where
  ttlSeconds : Nat
  cacheControlRespect : Bool := true
  maxCacheSize : Nat := 10000
  paths : List String := []

structure CacheMiddleware where
  config : CacheConfig
  cache : JsonResponseCache

namespace CacheMiddleware

def new (config : CacheConfig) : CacheMiddleware :=
  ⟨config, .new config.maxCacheSize (config.ttlSeconds * 10 ^ 9)⟩

def contains (s part : String) : Bool := decide (part.toList <:+: s.toList)

def hit (cachedBytes : List UInt8) : MiddlewareResponse :=
  ((⟨200, [], cachedBytes⟩ : MiddlewareResponse).withHeader "Content-Type"
    "application/json; charset=utf-8").withHeader "X-Cache" "HIT"

section

variable (c : Crates) (xxh3_64 : List UInt8 → UInt64) (mw : CacheMiddleware)
  (ctx : MiddlewareContext)

/-- The request asks not to be answered from a cache. -/
def bypasses : Bool :=
  let cacheControl := c.toLowercase ((ctx.getHeader c "cache-control").getD "")
  mw.config.cacheControlRespect &&
    (contains cacheControl "no-store" || contains cacheControl "no-cache")

def execute (now : Core.Instant) : MiddlewareResult × MiddlewareContext × CacheMiddleware :=
  if ctx.method ≠ .get then (.next, ctx, mw)
  else if !mw.config.paths.isEmpty && !mw.config.paths.any (fun p => ctx.path.startsWith p) then
    (.next, ctx, mw)
  else if mw.bypasses c ctx then (.next, ctx.setState "x-cache" (.string "BYPASS"), mw)
  else
    let keyHash := computeKeyHash xxh3_64 ctx.path ctx.queryString
    let found := mw.cache.get keyHash now
    let mw := { mw with cache := found.2 }
    match found.1 with
    | some cachedBytes => (.response (hit cachedBytes), ctx, mw)
    | none =>
      -- downstream is to store the response under this key
      let ctx := ctx.setState "x-cache" (.string "MISS")
      (.next, ctx.setState "cache_key_hash" (.string (toString keyHash.toNat)), mw)

def invalidate (route params : String) : CacheMiddleware :=
  { mw with cache := mw.cache.invalidate (computeKeyHash xxh3_64 route params) }

def clear : CacheMiddleware := { mw with cache := mw.cache.clear }

end

end CacheMiddleware

/-! ## Runs -/

/-- A request, a response that is stored for one with this key, and the other methods. -/
inductive CacheUse
  | request (ctx : MiddlewareContext) (now : Core.Instant)
  | store (key : CacheKey) (body : List UInt8) (clock : UInt64 → Core.Instant) (order : List CacheEntry)
    (now : Core.Instant)
  | invalidate (route params : String)
  | clear

namespace CacheMiddleware

section

variable (c : Crates) (xxh3_64 : List UInt8 → UInt64)

def step (mw : CacheMiddleware) : CacheUse → Option CacheMiddleware
  | .request ctx now => some (mw.execute c xxh3_64 ctx now).2.2
  | .store key body clock order now =>
    (mw.cache.step (.insert (key.hash xxh3_64) body clock order now)).map fun cache =>
      { mw with cache }
  | .invalidate route params => some (mw.invalidate xxh3_64 route params)
  | .clear => some mw.clear

/-- What a use says about the entry under a hash. -/
def verdict (defaultTtl : Nat) (hash : UInt64) :
    CacheUse → Option (Option JsonResponseCache.Written)
  | .request _ _ => none
  | .store key body clock order now =>
    JsonResponseCache.verdict defaultTtl hash (.insert (key.hash xxh3_64) body clock order now)
  | .invalidate route params =>
    JsonResponseCache.verdict defaultTtl hash (.invalidate (computeKeyHash xxh3_64 route params))
  | .clear => some none

end

/-- What is stored for a key by a use. -/
def storedFor (defaultTtl : Nat) (key : CacheKey) : CacheUse → Option JsonResponseCache.Written
  | .store other body _ _ now => if key = other then some ⟨body, now, defaultTtl⟩ else none
  | _ => none

/-- What was stored for a key last. -/
def lastStored (defaultTtl : Nat) (key : CacheKey) (uses : List CacheUse) :
    Option JsonResponseCache.Written := uses.reverse.findSome? (storedFor defaultTtl key)

/-- The key is stored for by one of the uses. -/
def Stores (key : CacheKey) (uses : List CacheUse) : Prop :=
  ∃ body clock order now, .store key body clock order now ∈ uses

variable {c : Crates} {xxh3_64 : List UInt8 → UInt64} {mw mw' : CacheMiddleware}
  {ctx : MiddlewareContext} {now : Core.Instant} {maxSize defaultTtl : Nat}
  {w : UInt64 → Option JsonResponseCache.Written}

theorem execute_cases (c : Crates) (xxh3_64 : List UInt8 → UInt64) (mw : CacheMiddleware)
    (ctx : MiddlewareContext) (now : Core.Instant) :
    ((mw.execute c xxh3_64 ctx now).1 = .next ∧ (mw.execute c xxh3_64 ctx now).2.2 = mw) ∨
      (mw.execute c xxh3_64 ctx now).2.2.cache =
          (mw.cache.get (computeKeyHash xxh3_64 ctx.path ctx.queryString) now).2 ∧
        ∀ r, (mw.execute c xxh3_64 ctx now).1 = .response r → ∃ body,
          (mw.cache.get (computeKeyHash xxh3_64 ctx.path ctx.queryString) now).1 = some body ∧
            r = hit body := by
  unfold execute
  split_ifs
  · exact .inl ⟨rfl, rfl⟩
  · exact .inl ⟨rfl, rfl⟩
  · exact .inl ⟨rfl, rfl⟩
  · right
    dsimp only
    cases (mw.cache.get (computeKeyHash xxh3_64 ctx.path ctx.queryString) now).1 with
    | some body =>
      refine ⟨rfl, fun r hr => ⟨body, rfl, ?_⟩⟩
      cases hr
      rfl
    | none => exact ⟨rfl, nofun⟩

theorem backed_step {use : CacheUse} (h : mw.cache.Backed maxSize defaultTtl w)
    (hstep : mw.step c xxh3_64 use = some mw') :
    mw'.cache.Backed maxSize defaultTtl
      fun hash => (verdict xxh3_64 defaultTtl hash use).getD (w hash) := by
  cases use with
  | request ctx now =>
    cases hstep
    rcases execute_cases c xxh3_64 mw ctx now with ⟨-, hmw⟩ | ⟨hcache, -⟩
    · rw [hmw]
      exact h
    · rw [hcache]
      exact h.get
  | store key body clock order now =>
    obtain ⟨cache, hcache, heq⟩ := Option.map_eq_some_iff.mp hstep
    cases heq
    exact h.step hcache
  | invalidate route params =>
    cases hstep
    have hcache : mw.cache.step (.invalidate (computeKeyHash xxh3_64 route params)) =
        some (mw.invalidate xxh3_64 route params).cache := rfl
    exact h.step hcache
  | clear =>
    cases hstep
    have hcache : mw.cache.step .clear = some mw.clear.cache := rfl
    exact h.step hcache

/-- Where no key that is stored for overlaps the one at hand, what the cache holds under its hash
was stored for it. -/
theorem lastStored_of_lastVerdict {uses : List CacheUse} {key : CacheKey}
    {x : JsonResponseCache.Written}
    (hseparate : ∀ k, Stores k uses → k.CollisionFree xxh3_64 key ∧ ¬ k.Overlaps key ∧
      ¬ key.Overlaps k)
    (h : lastVerdict (verdict xxh3_64 defaultTtl (key.hash xxh3_64)) none uses = some x) :
    lastStored defaultTtl key uses = some x := by
  refine findSome?_of_lastVerdict h (fun use huse hnone => ?_) fun use huse b hsome => ?_
  · cases use with
    | store other body clock order now =>
      refine if_neg fun heq => ?_
      subst heq
      have hsaid : (if key.hash xxh3_64 = key.hash xxh3_64 then
        some (some (⟨body, now, defaultTtl⟩ : JsonResponseCache.Written)) else none) = none := hnone
      rw [if_pos rfl] at hsaid
      cases hsaid
    | _ => rfl
  · -- a store under the same hash is one for the same key, since the two do not overlap
    cases use with
    | store other body clock order now =>
      obtain ⟨hhash, hb⟩ := Option.ite_none_right_eq_some.mp hsome
      obtain ⟨hfree, hoverlap⟩ := hseparate other ⟨body, clock, order, now, huse⟩
      have hkey : other = key := (CacheKey.separates_iff hfree).mpr hoverlap hhash.symm
      cases hb
      exact if_pos hkey.symm
    | invalidate route params =>
      obtain ⟨-, hb⟩ := Option.ite_none_right_eq_some.mp hsome
      cases hb
    | request ctx now => cases hsome
    | clear => cases hsome

/-- The keys are told apart where they do not overlap, and in a run in which no key that is stored
for overlaps that of a request, the request is answered with what was stored for its own key. -/
theorem keys_separate (c : Crates) (xxh3_64 : List UInt8 → UInt64) :
    (∀ k l : CacheKey, k.CollisionFree xxh3_64 l →
        ((k.hash xxh3_64 = l.hash xxh3_64 → k = l) ↔ ¬ k.Overlaps l ∧ ¬ l.Overlaps k)) ∧
      ∀ (config : CacheConfig) (uses : List CacheUse) (mw : CacheMiddleware)
        (ctx : MiddlewareContext) (now : Core.Instant) (r : MiddlewareResponse),
        exec (step c xxh3_64) (new config) uses = some mw →
        (∀ k, Stores k uses → k.CollisionFree xxh3_64 ⟨ctx.path, ctx.queryString⟩ ∧
          ¬ k.Overlaps ⟨ctx.path, ctx.queryString⟩ ∧ ¬ CacheKey.Overlaps ⟨ctx.path, ctx.queryString⟩ k) →
        (mw.execute c xxh3_64 ctx now).1 = .response r →
        ∃ x, lastStored (config.ttlSeconds * 10 ^ 9) ⟨ctx.path, ctx.queryString⟩ uses = some x ∧
          r = hit x.data ∧ x.createdAt.elapsed now ≤ x.ttl := by
  refine ⟨fun k l hfree => CacheKey.separates_iff hfree, ?_⟩
  intro config uses mw ctx now r hexec hseparate hresponse
  have hbacked : mw.cache.Backed config.maxCacheSize (config.ttlSeconds * 10 ^ 9) fun hash =>
      lastVerdict (verdict xxh3_64 (config.ttlSeconds * 10 ^ 9) hash) none uses :=
    exec_tracks (R := fun mw w => mw.cache.Backed config.maxCacheSize (config.ttlSeconds * 10 ^ 9) w)
      (fun mw use mw' w hmw hstep => backed_step hmw hstep) (JsonResponseCache.backed_new _ _) hexec
  rcases execute_cases c xxh3_64 mw ctx now with ⟨hnext, -⟩ | ⟨-, hhit⟩
  · rw [hnext] at hresponse
    cases hresponse
  · obtain ⟨body, hget, rfl⟩ := hhit r hresponse
    obtain ⟨x, hx, rfl, hage⟩ := hbacked.of_get hget
    exact ⟨x, lastStored_of_lastVerdict hseparate hx, rfl, hage⟩

/-! ## One request that is answered with its own response, and one that is not -/

def getRequest (path query : String) : MiddlewareContext := .new path .get ∅ query none "1"

/-- The bytes as the digits of a number. -/
def digitsHash (bytes : List UInt8) : UInt64 :=
  UInt64.ofNat (bytes.foldl (fun n b => n * 256 + b.toNat) 0)

def storedPage (key : CacheKey) : CacheUse :=
  .store key [49] (fun _ => Core.Instant.zero) [] Core.Instant.zero

theorem page_answered : ∃ mw x, exec (step asciiCase digitsHash) (new ⟨60, true, 10, []⟩)
    [storedPage ⟨"/a", "b"⟩] = some mw ∧
      (mw.execute asciiCase digitsHash (getRequest "/a" "b") Core.Instant.zero).1 =
        .response (hit x.data) ∧
        lastStored (60 * 10 ^ 9) ⟨"/a", "b"⟩ [storedPage ⟨"/a", "b"⟩] = some x := by
  have hstored : ∀ k, Stores k [storedPage ⟨"/a", "b"⟩] → k = ⟨"/a", "b"⟩ := by
    rintro k ⟨body, clock, order, now, hmem⟩
    cases List.mem_singleton.mp hmem
    rfl
  have hfree : CacheKey.CollisionFree digitsHash ⟨"/a", "b"⟩ ⟨"/a", "b"⟩ := by
    rintro t (rfl | rfl) t' (rfl | rfl) _ <;> rfl
  have hseparate : ∀ k, Stores k [storedPage ⟨"/a", "b"⟩] →
      k.CollisionFree digitsHash ⟨"/a", "b"⟩ ∧ ¬ k.Overlaps ⟨"/a", "b"⟩ ∧
        ¬ CacheKey.Overlaps ⟨"/a", "b"⟩ k := by
    intro k hk
    rw [hstored k hk]
    exact ⟨hfree, CacheKey.not_overlaps_self _, CacheKey.not_overlaps_self _⟩
  obtain ⟨x, hx, hhit, -⟩ := (keys_separate asciiCase digitsHash).2 ⟨60, true, 10, []⟩
    [storedPage ⟨"/a", "b"⟩] _ (getRequest "/a" "b") Core.Instant.zero (hit [49]) rfl hseparate rfl
  exact ⟨_, x, rfl, hhit ▸ rfl, hx⟩

/-- The keys `/a` with `b:c` and `/a:b` with `c` are one text, so the response of the second is
given to a request for the first. -/
theorem colon_confused :
    (∀ xxh3_64, CacheKey.hash xxh3_64 ⟨"/a", "b:c"⟩ = CacheKey.hash xxh3_64 ⟨"/a:b", "c"⟩) ∧
      ∃ mw, exec (step asciiCase digitsHash) (new ⟨60, true, 10, []⟩) [storedPage ⟨"/a:b", "c"⟩] =
          some mw ∧
        (mw.execute asciiCase digitsHash (getRequest "/a" "b:c") Core.Instant.zero).1 =
          .response (hit [49]) ∧
        lastStored (60 * 10 ^ 9) ⟨"/a", "b:c"⟩ [storedPage ⟨"/a:b", "c"⟩] = none := by
  refine ⟨fun xxh3_64 => ?_, _, rfl, rfl, rfl⟩
  have htext : CacheKey.text ⟨"/a", "b:c"⟩ = CacheKey.text ⟨"/a:b", "c"⟩ := by decide
  exact congrArg (fun t => xxh3_64 (utf8 t)) htext

end CacheMiddleware

end Hypern.Middleware
