import InkCache.Js
import InkCache.Lib.OrderedMap

/-!
# The store (`src/core/cache.ts`)

`now` is what `Date.now()` answers during the operation. The entries are a `Map`, whose insertion
order is the recency list: the front is the least recently touched key. A key handed to `onEvict`
is appended to `evicted`.
-/

namespace InkCache

open Lib

/-- An entry; `expiresAt` is the absolute deadline, `hits` the reads since it was set. -/
structure CacheEntry (ν : Type) where
  value : JsString
  expiresAt : Option ν
  hits : ℕ

inductive EvictionPolicy where
  | lru
  | accessAware
  | lfu
  deriving DecidableEq

structure CacheStoreOptions where
  maxEntries : ℕ := 512
  policy : EvictionPolicy := .accessAware
  evictionSampleSize : ℕ := 5

structure CacheStore (ν : Type) where
  entries : OrderedMap JsString (CacheEntry ν)
  maxEntries : ℕ
  policy : EvictionPolicy
  evictionSampleSize : ℕ
  evictionCount : ℕ
  evicted : List JsString

/-- What `getWithTtl` answers; `ttl` is `none` for `null`. -/
structure ValueWithTtl (ν : Type) where
  value : JsString
  ttl : Option ν
  deriving DecidableEq

/-- A row of `detailedKeys`. -/
structure DetailedKey (ν : Type) where
  key : JsString
  hits : ℕ
  ttl : Option ν

/-- A row of `exportEntries`, and of a snapshot. -/
structure SnapshotRow (ν : Type) where
  key : JsString
  value : JsString
  ttl : Option ν
  deriving DecidableEq

variable {ν : Type} [JsNumber ν]

/-- The milliseconds in a second. -/
def msPerSecond : ν := ((1000 : ℕ) : ν)

namespace CacheEntry

/-- `isExpired`: a deadline that has been reached. -/
def isExpired (now : ν) (e : CacheEntry ν) : Bool :=
  match e.expiresAt with
  | none => false
  | some d => decide (d ≤ now)

/-- The remaining time to live in seconds, `none` for an entry that never expires. -/
def remainingTtl (now : ν) (e : CacheEntry ν) : Option ν :=
  e.expiresAt.map fun d => max 0 ((d - now) / msPerSecond)

end CacheEntry

/-- The deadline `set` gives an entry: only a positive `ttl` makes one. -/
def deadline (now : ν) (ttl : Option ν) : Option ν :=
  match ttl with
  | none => none
  | some t => if 0 < t then some (now + t * msPerSecond) else none

namespace CacheStore

def new (opts : CacheStoreOptions) : CacheStore ν where
  entries := .empty
  maxEntries := opts.maxEntries
  policy := opts.policy
  evictionSampleSize := opts.evictionSampleSize
  evictionCount := 0
  evicted := []

def size (s : CacheStore ν) : ℕ := s.entries.size

/-- Removes every expired entry, and counts them. -/
def sweep (now : ν) (s : CacheStore ν) : CacheStore ν × ℕ :=
  let r := s.entries.drain (fun e => e.2.isExpired now)
    (fun removed e => if e.2.isExpired now then removed + 1 else removed) 0
  ({ s with entries := r.1 }, r.2)

/-! ## Eviction -/

def doEvict (key : JsString) (s : CacheStore ν) : CacheStore ν :=
  { s with
    entries := s.entries.delete key
    evictionCount := s.evictionCount + 1
    evicted := s.evicted ++ [key] }

/-- The loop of `evictLeastAccessed` and `evictLFU`: `worst` is the key with the fewest hits met
so far, with its hits; at the start there is none, and its hits are infinite. -/
def leastAccessed (worst : Option (JsString × ℕ)) :
    List (JsString × CacheEntry ν) → Option (JsString × ℕ)
  | [] => worst
  | (key, entry) :: rest =>
    match worst with
    | none => leastAccessed (some (key, entry.hits)) rest
    | some (worstKey, worstHits) =>
      if entry.hits < worstHits then leastAccessed (some (key, entry.hits)) rest
      else leastAccessed (some (worstKey, worstHits)) rest

/-- The key at the front. -/
def evictOldest (s : CacheStore ν) : CacheStore ν :=
  match s.entries.keys.head? with
  | none => s
  | some oldest => s.doEvict oldest

/-- The least read of the `evictionSampleSize` keys at the front. -/
def evictLeastAccessed (s : CacheStore ν) : CacheStore ν :=
  match leastAccessed none (s.entries.entries.take s.evictionSampleSize) with
  | none => s
  | some (worstKey, _) => s.doEvict worstKey

/-- The least read of all keys. -/
def evictLFU (s : CacheStore ν) : CacheStore ν :=
  match leastAccessed none s.entries.entries with
  | none => s
  | some (worstKey, _) => s.doEvict worstKey

/-- Frees one slot: the expired entries go first, and only if there is none a live one. -/
def evict (now : ν) (s : CacheStore ν) : CacheStore ν :=
  let r := s.sweep now
  if 0 < r.2 then r.1
  else
    match s.policy with
    | .lru => r.1.evictOldest
    | .lfu => r.1.evictLFU
    | .accessAware => r.1.evictLeastAccessed

/-! ## The operations -/

def set (now : ν) (key value : JsString) (ttl : Option ν) (s : CacheStore ν) : CacheStore ν :=
  let entry : CacheEntry ν := { value, expiresAt := deadline now ttl, hits := 0 }
  -- deleted first, so that an overwrite moves the key to the back
  let s := { s with entries := s.entries.delete key }
  let s := if s.maxEntries ≤ s.size then s.evict now else s
  { s with entries := s.entries.set key entry }

/-- The lookup `get` and `getWithTtl` share: an expired entry is deleted and missed, a live one
is counted and moved to the back. -/
def touch (now : ν) (key : JsString) (s : CacheStore ν) : CacheStore ν × Option (CacheEntry ν) :=
  match s.entries.get? key with
  | none => (s, none)
  | some entry =>
    if entry.isExpired now then ({ s with entries := s.entries.delete key }, none)
    else
      let entry := { entry with hits := entry.hits + 1 }
      ({ s with entries := (s.entries.delete key).set key entry }, some entry)

def get (now : ν) (key : JsString) (s : CacheStore ν) : CacheStore ν × Option JsString :=
  let r := s.touch now key
  (r.1, r.2.map CacheEntry.value)

def getWithTtl (now : ν) (key : JsString) (s : CacheStore ν) :
    CacheStore ν × Option (ValueWithTtl ν) :=
  let r := s.touch now key
  (r.1, r.2.map fun entry => { value := entry.value, ttl := entry.remainingTtl now })

def delete (key : JsString) (s : CacheStore ν) : CacheStore ν × Bool :=
  ({ s with entries := s.entries.delete key }, (s.entries.get? key).isSome)

def deleteByPrefix (pre : JsString) (s : CacheStore ν) : CacheStore ν × ℕ :=
  let r := s.entries.drain (fun e => e.1.startsWith pre)
    (fun dropped e => if e.1.startsWith pre then dropped + 1 else dropped) 0
  ({ s with entries := r.1 }, r.2)

/-- The lookup `has` and `ttl` share: an expired entry is deleted and missed. -/
def peek (now : ν) (key : JsString) (s : CacheStore ν) : CacheStore ν × Option (CacheEntry ν) :=
  match s.entries.get? key with
  | none => (s, none)
  | some entry =>
    if entry.isExpired now then ({ s with entries := s.entries.delete key }, none)
    else (s, some entry)

def has (now : ν) (key : JsString) (s : CacheStore ν) : CacheStore ν × Bool :=
  let r := s.peek now key
  (r.1, r.2.isSome)

/-- `none` for a key that has no expiry as for one that is gone. -/
def ttl (now : ν) (key : JsString) (s : CacheStore ν) : CacheStore ν × Option ν :=
  let r := s.peek now key
  (r.1, r.2.bind fun entry => entry.remainingTtl now)

def accessCount (now : ν) (key : JsString) (s : CacheStore ν) : Option ℕ :=
  match s.entries.get? key with
  | none => none
  | some entry => if entry.isExpired now then none else some entry.hits

/-- The loop of `keys`, `detailedKeys` and `exportEntries`: drops the expired entries and lists
a row for each live one. -/
def listLive {β : Type} (now : ν) (row : JsString → CacheEntry ν → β) (s : CacheStore ν) :
    CacheStore ν × List β :=
  let r := s.entries.drain (fun e => e.2.isExpired now)
    (fun result e => if e.2.isExpired now then result else result ++ [row e.1 e.2]) []
  ({ s with entries := r.1 }, r.2)

def keys (now : ν) (s : CacheStore ν) : CacheStore ν × List JsString :=
  s.listLive now fun key _ => key

def detailedKeys (now : ν) (s : CacheStore ν) : CacheStore ν × List (DetailedKey ν) :=
  s.listLive now fun key entry =>
    { key, hits := entry.hits, ttl := entry.remainingTtl now }

def exportEntries (now : ν) (s : CacheStore ν) : CacheStore ν × List (SnapshotRow ν) :=
  s.listLive now fun key entry =>
    { key, value := entry.value, ttl := entry.remainingTtl now }

def clear (s : CacheStore ν) : CacheStore ν :=
  { s with entries := .empty }

end CacheStore

end InkCache
