import InkCache.ReplicaPair
import InkCache.TwinStores
import InkCache.Proofs.Cache

/-!
# A primary and a replica that hears at once

Clients talk to the primary alone, and whatever it forwards to the replica arrives in order and at
the clock reading it was sent at. Both sweep when they like. Reads are not forwarded, and neither
is `POST /restore`.
-/

namespace InkCache

open Lib

variable {ν : Type} [JsNumber ν]

structure Mirror (ν : Type) where
  clock : ν
  primary : App ν
  replica : App ν
  replicaUrl : JsString

inductive MirrorAction (ν : Type) where
  | request (now : ν) (r : WriteRequest ν)
  | restore (now : ν) (body : Option (Json ν))
  /-- A `GET`, by what it reads of the store. -/
  | read (now : ν) (op : StoreOp ν)
  | sweepPrimary (now : ν)
  | sweepReplica (now : ν)

def MirrorAction.now : MirrorAction ν → ν
  | request now _ | restore now _ | read now _ | sweepPrimary now | sweepReplica now => now

/-- The store answers an operation outside the routes that write. -/
def App.operate (now : ν) (op : StoreOp ν) (app : App ν) : App ν :=
  { app with store := op.apply now app.store }

def mirrorStep (s : Mirror ν) :
    MirrorAction ν → Option (Mirror ν × List (AppResponse ν))
  | .request now r =>
    let answer := s.primary.write now r
    some ({ s with
        clock := now
        primary := answer.1
        replica := (sentTo s.replicaUrl answer.2.2).foldl
          (fun app op => app.postReplicate now op) s.replica }, [answer.2.1])
  | .restore now body =>
    let answer := s.primary.postRestore now body
    some ({ s with clock := now, primary := answer.1 }, [answer.2])
  | .read now op =>
    if op.isObservation then
      some ({ s with clock := now, primary := s.primary.operate now op }, [])
    else none
  | .sweepPrimary now =>
    some ({ s with clock := now, primary := s.primary.operate now .sweep }, [])
  | .sweepReplica now =>
    some ({ s with clock := now, replica := s.replica.operate now .sweep }, [])

/-- The value a read of `k` at `now` finds. -/
def CacheStore.liveValue (now : ν) (s : CacheStore ν) (k : JsString) : Option JsString :=
  ((live now s.entries).get? k).map CacheEntry.value

/-- The entries that setting `key` must make room beside. -/
def CacheStore.others (now : ν) (key : JsString) (s : CacheStore ν) : Entries ν :=
  (live now s.entries).delete key

/-- The policy ranks `w` lowest: of the entries it looks at, `w` has the fewest hits, and of those
with as few it is the nearest to the front. -/
def CacheStore.RanksLowest (s : CacheStore ν) (m : Entries ν) (w : JsString) : Prop :=
  ∃ l₁ e l₂, m.entries.take (s.window m) = l₁ ++ (w, e) :: l₂ ∧
    (∀ x ∈ l₁, e.hits < x.2.hits) ∧ ∀ x ∈ l₂, e.hits ≤ x.2.hits

/-- If setting `key` takes a live entry's place, both policies rank the same one lowest. -/
def SameRanking (now : ν) (key : JsString) (s s' : CacheStore ν) : Prop :=
  s.maxEntries ≤ (s.others now key).size →
    ∀ w, s.RanksLowest (s.others now key) w ↔ s'.RanksLowest (s'.others now key) w

/-- The entries `POST /restore` loads, if the request is accepted. -/
def App.restoredEntries (now : ν) (body : Option (Json ν)) (app : App ν) :
    List (ValidatedEntry ν) :=
  match readField (orEmpty body) (js "keys") with
  | .value (.arr keys) => (App.validateAll app.maxKeyLength now 0 keys).toOption.getD []
  | _ => []

/-- The clock does not run backwards. -/
def ClockForward (s : Mirror ν) (a : MirrorAction ν) : Prop := s.clock ≤ a.now

/-- A write that is accepted and takes an entry's place finds the two stores ranking the same entry
lowest; a restore loads nothing. -/
def Concordant (s : Mirror ν) : MirrorAction ν → Prop
  | .request now (.set body) =>
    ∀ e ∈ (validateEntry s.primary.maxKeyLength now (some (orEmpty body))).toOption,
      SameRanking now e.key s.primary.store s.replica.store
  | .restore now body => s.primary.restoredEntries now body = []
  | _ => True

/-- Equal stores that have been in use, under equal options; the primary forwards to the replica. -/
structure Mirrored (s : Mirror ν) : Prop where
  used : ∃ opts t₀ log, StoreRun opts t₀ log ⟨s.clock, s.primary.store⟩
  entries : s.replica.store.entries = s.primary.store.entries
  options : s.replica.store.options = s.primary.store.options
  role : s.primary.leadership.role = .primary
  replicaUrl : s.primary.leadership.replicaUrls.count s.replicaUrl = 1

/-- A primary and a replica of a given capacity that have just started, empty, with lru. -/
def freshMirror (maxEntries : ℕ) : Mirror ℚ where
  clock := 0
  primary := { freshPair.primary with store := .new { maxEntries, policy := .lru } }
  replica := { freshPair.replica with store := .new { maxEntries, policy := .lru } }
  replicaUrl := freshPair.replicaUrl

end InkCache
