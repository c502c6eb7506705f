import InkCache.App
import InkCache.Lib.Run
import InkCache.Lib.Delivery

/-!
# A primary and one of its replicas

The primary answers the requests that write, and what it forwards to the replica is a message of
its own, delivered to `POST /internal/replicate` at any later time.
-/

namespace InkCache

open Lib

variable {ν : Type} [JsNumber ν]

namespace ReplicationOp

/-- What the op makes of a key: `none` if it leaves it alone. -/
def writes (op : ReplicationOp ν) (k : JsString) : Option (Option JsString) :=
  match op with
  | set key value _ => if key = k then some (some value) else none
  | delete key => if key = k then some none else none
  | invalidate pre => if k.startsWith pre then some none else none
  | flush => some none

/-- Whether the two leave some key different, one way round and the other. -/
def conflicts : ReplicationOp ν → ReplicationOp ν → Bool
  | set key value _, set key' value' _ => key = key' && value ≠ value'
  | set key _ _, delete key' | delete key', set key _ _ => key = key'
  | set key _ _, invalidate pre | invalidate pre, set key _ _ => key.startsWith pre
  | set _ _ _, flush | flush, set _ _ _ => true
  | _, _ => false

/-- Whether the store takes the op without giving anything up for it. -/
def hasRoom (s : CacheStore ν) : ReplicationOp ν → Bool
  | set key _ _ => (s.entries.delete key).size < s.maxEntries
  | _ => true

def hasNoTtl : ReplicationOp ν → Bool
  | set _ _ ttl => ttl.isNone
  | _ => true

end ReplicationOp

/-- The keys of a store and their values. -/
def CacheStore.values (s : CacheStore ν) (k : JsString) : Option JsString :=
  (s.entries.get? k).map CacheEntry.value

structure ReplicaPair (ν : Type) where
  primary : App ν
  replica : App ν
  replicaUrl : JsString
  messages : List (ReplicationOp ν)

inductive PairAction (ν : Type) where
  | request (now : ν) (r : WriteRequest ν)
  /-- The message at a place of the queue arrives. -/
  | deliver (now : ν) (i : ℕ)

/-- The messages among the forwarded that are for `url`. -/
def sentTo (url : JsString) (forwarded : List (JsString × ReplicationOp ν)) :
    List (ReplicationOp ν) :=
  (forwarded.filter fun m => m.1 = url).map Prod.snd

def pairStep (s : ReplicaPair ν) :
    PairAction ν → Option (ReplicaPair ν × List (AppResponse ν))
  | .request now r =>
    let answer := s.primary.write now r
    some ({ s with
        primary := answer.1
        messages := s.messages ++ sentTo s.replicaUrl answer.2.2 }, [answer.2.1])
  | .deliver now i =>
    match s.messages[i]? with
    | none => none
    | some op =>
      some ({ s with
          replica := s.replica.postReplicate now op
          messages := s.messages.eraseIdx i }, [])

/-- No capacity is reached, and nothing is given a time to live. -/
def Ample (s : ReplicaPair ν) : PairAction ν → Prop
  | .request now r =>
    ∀ m ∈ (s.primary.write now r).2.2, m.2.hasRoom s.primary.store ∧ m.2.hasNoTtl
  | .deliver _ i => ∀ op ∈ s.messages[i]?, op.hasRoom s.replica.store

/-- A message overtakes none that it conflicts with. -/
def InOrder (s : ReplicaPair ν) : PairAction ν → Prop
  | .request _ _ => True
  | .deliver _ i => ∀ op ∈ s.messages[i]?, ∀ op' ∈ s.messages.take i, op'.conflicts op = false

instance (s : ReplicaPair ν) : ∀ a, Decidable (Ample s a)
  | .request now r => inferInstanceAs (Decidable (∀ m ∈ (s.primary.write now r).2.2,
      m.2.hasRoom s.primary.store ∧ m.2.hasNoTtl))
  | .deliver _ i => inferInstanceAs (Decidable (∀ op ∈ s.messages[i]?, op.hasRoom s.replica.store))

instance (s : ReplicaPair ν) : ∀ a, Decidable (InOrder s a)
  | .request _ _ => instDecidableTrue
  | .deliver _ i => inferInstanceAs (Decidable (∀ op ∈ s.messages[i]?,
      ∀ op' ∈ s.messages.take i, op'.conflicts op = false))

/-- Equal stores that hold nothing with a time to live, and no message on its way; the primary
forwards to the replica. -/
structure Paired (s : ReplicaPair ν) : Prop where
  values : s.primary.store.values = s.replica.store.values
  primary : ∀ e ∈ s.primary.store.entries.entries, e.2.expiresAt = none
  replica : ∀ e ∈ s.replica.store.entries.entries, e.2.expiresAt = none
  messages : s.messages = []
  replicaUrl : s.primary.leadership.replicaUrls.count s.replicaUrl = 1

/-- A primary and a replica that have just started, empty. -/
def freshPair : ReplicaPair ℚ where
  primary := {
    store := CacheStore.new {}
    leadership := {
      role := .primary
      primaryUrl := none
      replicaUrls := [js "http://replica"]
      election := .new (js "http://primary") } }
  replica := {
    store := CacheStore.new {}
    leadership := {
      role := .replica
      primaryUrl := some (js "http://primary")
      replicaUrls := []
      election := .new (js "http://replica") } }
  replicaUrl := js "http://replica"
  messages := []

/-- `POST /set` of a key and a value. -/
def setRequest (key value : JsString) : WriteRequest ν :=
  .set (some (.obj [(js "key", .str key), (js "value", .str value)]))

end InkCache
