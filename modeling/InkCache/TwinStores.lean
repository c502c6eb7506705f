import InkCache.StoreHistory

/-!
# Two stores side by side

What each operation of `src/core/cache.ts` answers, and two stores that are given the same
operations, or of which the second is given more than the first.
-/

namespace InkCache

open Lib

variable {ν : Type} [JsNumber ν]

inductive StoreResult (ν : Type) where
  | void
  | value (v : Option JsString)
  | valueWithTtl (v : Option (ValueWithTtl ν))
  | found (b : Bool)
  | ttl (t : Option ν)
  | accessCount (n : Option ℕ)
  | dropped (n : ℕ)
  | keys (keys : List JsString)
  | detailedKeys (rows : List (DetailedKey ν))
  | exportEntries (rows : List (SnapshotRow ν))

namespace StoreOp

def result (now : ν) (s : CacheStore ν) : StoreOp ν → StoreResult ν
  | .set _ _ _ => .void
  | .get key => .value (s.get now key).2
  | .getWithTtl key => .valueWithTtl (s.getWithTtl now key).2
  | .delete key => .found (s.delete key).2
  | .deleteByPrefix pre => .dropped (s.deleteByPrefix pre).2
  | .has key => .found (s.has now key).2
  | .ttl key => .ttl (s.ttl now key).2
  | .accessCount key => .accessCount (s.accessCount now key)
  | .keys => .keys (s.keys now).2
  | .detailedKeys => .detailedKeys (s.detailedKeys now).2
  | .exportEntries => .exportEntries (s.exportEntries now).2
  | .sweep => .dropped (s.sweep now).2
  | .clear => .void

/-- Whether the operation reads the store: its keys, or what it holds of one. -/
def isObservation : StoreOp ν → Bool
  | .get _ | .getWithTtl _ | .has _ | .ttl _ | .accessCount _ | .keys | .detailedKeys
  | .exportEntries => true
  | _ => false

/-- Whether the operation drops expired entries, and no others. -/
def isCleanup : StoreOp ν → Bool
  | .sweep | .keys | .detailedKeys | .exportEntries | .has _ | .ttl _ => true
  | _ => false

end StoreOp

/-- The options the store was made with. -/
def CacheStore.options (s : CacheStore ν) : CacheStoreOptions where
  maxEntries := s.maxEntries
  policy := s.policy
  evictionSampleSize := s.evictionSampleSize

structure TwinStores (ν : Type) where
  clock : ν
  plain : CacheStore ν
  other : CacheStore ν

inductive TwinAction (ν : Type) where
  | both (now : ν) (op : StoreOp ν)
  /-- An operation that only the second store is given. -/
  | extra (now : ν) (op : StoreOp ν)

def twinStep (p : TwinStores ν) : TwinAction ν → Option (TwinStores ν × List Empty)
  | .both now op => some (⟨now, op.apply now p.plain, op.apply now p.other⟩, [])
  | .extra now op => some ({ p with clock := now, other := op.apply now p.other }, [])

/-- The clock does not run backwards, and what is inserted only cleans up. -/
def InsertsCleanup (p : TwinStores ν) : TwinAction ν → Prop
  | .both now _ => p.clock ≤ now
  | .extra now op => p.clock ≤ now ∧ op.isCleanup = true

/-- The clock does not run backwards, and nothing is inserted. -/
def Together (p : TwinStores ν) : TwinAction ν → Prop
  | .both now _ => p.clock ≤ now
  | .extra _ _ => False

instance (p : TwinStores ν) : ∀ a, Decidable (InsertsCleanup p a)
  | .both now _ => inferInstanceAs (Decidable (p.clock ≤ now))
  | .extra now op => inferInstanceAs (Decidable (p.clock ≤ now ∧ op.isCleanup = true))

instance (p : TwinStores ν) : ∀ a, Decidable (Together p a)
  | .both now _ => inferInstanceAs (Decidable (p.clock ≤ now))
  | .extra _ _ => instDecidableFalse

end InkCache
