import InkCache.Cache
import InkCache.Lib.Run

/-!
# Histories of the store

The public operations as actions of a system, each with one clock reading, and what they report:
the writes, the successful reads, the deletions asked for, and the keys handed to `onEvict`. The
claims of the source about reads, recency and hit counts are about this log: it says nothing of
how the store keeps its entries.
-/

namespace InkCache

open Lib

variable {ν : Type} [JsNumber ν]

inductive StoreOp (ν : Type) where
  | set (key value : JsString) (ttl : Option ν)
  | get (key : JsString)
  | getWithTtl (key : JsString)
  | delete (key : JsString)
  | deleteByPrefix (pre : JsString)
  | has (key : JsString)
  | ttl (key : JsString)
  | accessCount (key : JsString)
  | keys
  | detailedKeys
  | exportEntries
  | sweep
  | clear

inductive StoreEvent (ν : Type) where
  | set (key value : JsString) (expiresAt : Option ν)
  /-- A `get` or `getWithTtl` that found the key. -/
  | read (key : JsString)
  | delete (key : JsString)
  | deleteByPrefix (pre : JsString)
  | clear
  /-- The policy gave the key up. -/
  | evicted (key : JsString)

/-- The store an operation leaves. -/
def StoreOp.apply (now : ν) (s : CacheStore ν) : StoreOp ν → CacheStore ν
  | .set key value t => s.set now key value t
  | .get key => (s.get now key).1
  | .getWithTtl key => (s.getWithTtl now key).1
  | .delete key => (s.delete key).1
  | .deleteByPrefix pre => (s.deleteByPrefix pre).1
  | .has key => (s.has now key).1
  | .ttl key => (s.ttl now key).1
  | .accessCount _ => s
  | .keys => (s.keys now).1
  | .detailedKeys => (s.detailedKeys now).1
  | .exportEntries => (s.exportEntries now).1
  | .sweep => (s.sweep now).1
  | .clear => s.clear

/-- The keys `onEvict` was called with between two states. -/
def newlyEvicted (s s' : CacheStore ν) : List JsString := s'.evicted.drop s.evicted.length

def StoreOp.events (now : ν) (s : CacheStore ν) : StoreOp ν → List (StoreEvent ν)
  | .set key value t =>
    (newlyEvicted s (s.set now key value t)).map .evicted ++ [.set key value (deadline now t)]
  | .get key => if (s.get now key).2.isSome then [.read key] else []
  | .getWithTtl key => if (s.getWithTtl now key).2.isSome then [.read key] else []
  | .delete key => [.delete key]
  | .deleteByPrefix pre => [.deleteByPrefix pre]
  | .clear => [.clear]
  | _ => []

/-- The store with the last clock reading. -/
structure TimedStore (ν : Type) where
  clock : ν
  store : CacheStore ν

/-- One operation at one clock reading. -/
def storeStep (ts : TimedStore ν) (a : ν × StoreOp ν) :
    Option (TimedStore ν × List (StoreEvent ν)) :=
  some (⟨a.1, a.2.apply a.1 ts.store⟩, a.2.events a.1 ts.store)

/-- The clock does not run backwards. -/
def ClockOk (ts : TimedStore ν) (a : ν × StoreOp ν) : Prop := ts.clock ≤ a.1

instance (ts : TimedStore ν) (a : ν × StoreOp ν) : Decidable (ClockOk ts a) :=
  inferInstanceAs (Decidable (ts.clock ≤ a.1))

/-- The histories of a fresh store whose clock starts at `t₀`. -/
abbrev StoreRun (opts : CacheStoreOptions) (t₀ : ν) :=
  Run storeStep ClockOk (⟨t₀, CacheStore.new opts⟩ : TimedStore ν)

/-! ## What a log says of a key -/

namespace StoreEvent

/-- Whether the event decides what a later read of `k` finds. -/
def concerns (k : JsString) : StoreEvent ν → Bool
  | set key _ _ => key = k
  | read _ => false
  | delete key => key = k
  | deleteByPrefix pre => k.startsWith pre
  | clear => true
  | evicted key => key = k

/-- Whether the event is a touch of `k`: a write or a successful read. -/
def touches (k : JsString) : StoreEvent ν → Bool
  | set key _ _ => key = k
  | read key => key = k
  | _ => false

def isSet (k : JsString) : StoreEvent ν → Bool
  | set key _ _ => key = k
  | _ => false

def isRead (k : JsString) : StoreEvent ν → Bool
  | read key => key = k
  | _ => false

end StoreEvent

/-- The last event that concerns `k`. -/
def mostRecent (k : JsString) (log : List (StoreEvent ν)) : Option (StoreEvent ν) :=
  (log.filter (·.concerns k)).getLast?

/-- What a read of `k` at `now` must find: the value of the most recent event on `k`, if that is
a write whose deadline is absent or later than `now`. -/
def expected (now : ν) (k : JsString) (log : List (StoreEvent ν)) : Option JsString :=
  match mostRecent k log with
  | some (.set _ value none) => some value
  | some (.set _ value (some d)) => if now < d then some value else none
  | _ => none

/-- The position in the log of the last touch of `k`, from one; zero if there is none. -/
def lastTouch (k : JsString) (log : List (StoreEvent ν)) : ℕ :=
  log.length - log.reverse.findIdx (·.touches k)

/-- The successful reads of `k` since it was last written. -/
def readsSinceSet (k : JsString) (log : List (StoreEvent ν)) : ℕ :=
  (log.reverse.takeWhile fun e => !e.isSet k).countP (·.isRead k)

/-! ## What a policy may give up -/

/-- The `n` of the keys with the oldest touches. -/
def oldest (n : ℕ) (log : List (StoreEvent ν)) (keys : List JsString) : List JsString :=
  keys.filter fun k => keys.countP (fun k' => lastTouch k' log < lastTouch k log) < n

/-- `w` has the fewest hits of the keys, and of those that have as few the oldest touch. -/
def LeastRead (log : List (StoreEvent ν)) (keys : List JsString) (w : JsString) : Prop :=
  w ∈ keys ∧ ∀ k ∈ keys, readsSinceSet w log < readsSinceSet k log ∨
    readsSinceSet w log = readsSinceSet k log ∧ lastTouch w log ≤ lastTouch k log

/-- Whether the policy may give up `w` when the keys are stored. -/
def IsVictim (opts : CacheStoreOptions) (log : List (StoreEvent ν)) (keys : List JsString)
    (w : JsString) : Prop :=
  match opts.policy with
  | .lru => w ∈ keys ∧ ∀ k ∈ keys, lastTouch w log ≤ lastTouch k log
  | .lfu => LeastRead log keys w
  | .accessAware => LeastRead log (oldest opts.evictionSampleSize log keys) w

/-! ## What was acknowledged, and what is in use -/

/-- Neither a read nor an eviction. -/
def StoreEvent.isAcknowledged : StoreEvent ν → Bool
  | read _ | evicted _ => false
  | _ => true

def StoreEvent.touched : StoreEvent ν → Option JsString
  | set key _ _ | read key => some key
  | _ => none

/-- The keys that were touched since `k` was last. -/
def touchedSince (k : JsString) (log : List (StoreEvent ν)) : Finset JsString :=
  (log.filterMap StoreEvent.touched).toFinset.filter fun k' => lastTouch k log < lastTouch k' log

/-- How many of the keys, from the oldest touch on, the policy chooses from. -/
def CacheStoreOptions.exposed (opts : CacheStoreOptions) : ℕ :=
  match opts.policy with
  | .lru => 1
  | .lfu => opts.maxEntries
  | .accessAware => opts.evictionSampleSize

/-- A key is in use if at no time since the last write or deletion of it more others had been
touched since it was last than the policy spares. -/
def InUse (opts : CacheStoreOptions) (k : JsString) (log : List (StoreEvent ν)) : Prop :=
  ∀ before after, log = before ++ after → (∀ e ∈ after, e.isAcknowledged → e.concerns k = false) →
    (touchedSince k before).card + opts.exposed ≤ opts.maxEntries

end InkCache
