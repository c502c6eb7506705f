import InkCache.Metrics
import InkCache.Mirror

/-!
# The dashboard's key views

A node with its metrics, and the dashboard that polls them. The list of keys is fetched again when
the sum of three counters changes (`keyRefreshToken`); the routes of the node bump these counters,
or do not. Which requests do is stated on its own (`Counts`).
-/

namespace InkCache

open Lib

variable {ν : Type} [JsNumber ν]

/-- What a request is served with besides its arguments: the clock the store reads, the clock the
metrics read, and the latency measured around the operation. -/
structure Moment (ν : Type) where
  now : ν
  clock : ℤ
  latencyUs : ℚ

inductive ServedRequest (ν : Type) where
  | write (r : WriteRequest ν)
  | restore (body : Option (Json ν))
  /-- `POST /internal/replicate` with a well-formed op. -/
  | replicate (op : ReplicationOp ν)
  | get (key : JsString)
  | keys
  | keyStats
  | snapshot

/-- `app.ts` with its `store`, its `metrics` and its leadership. -/
structure MeteredApp (ν : Type) where
  app : App ν
  metrics : MetricsCollector

/-- The operation a route records when it succeeds. -/
def WriteRequest.recorded : WriteRequest ν → Option OpType
  | set _ => some .set
  | delete _ => some .delete
  | invalidate _ | flush => none

/-- What `GET /metrics` answers of the store and the metrics. -/
structure MetricsAnswer where
  keys : ℕ
  maxEntries : ℕ
  evictions : ℕ
  evictionPolicy : EvictionPolicy
  evictionSampleSize : ℕ
  snapshot : MetricsSnapshot

namespace MeteredApp

def withStore (store : CacheStore ν) (s : MeteredApp ν) : MeteredApp ν :=
  { s with app := { s.app with store } }

/-- The node after a request, and whether the request succeeded. -/
def handle (m : Moment ν) (s : MeteredApp ν) : ServedRequest ν → MeteredApp ν × Bool
  | .write r =>
    let answer := s.app.write m.now r
    let metrics :=
      match r.recorded with
      | some op => if answer.2.1.isOk then s.metrics.record m.clock op m.latencyUs none
        else s.metrics
      | none => s.metrics
    ({ app := answer.1, metrics }, answer.2.1.isOk)
  | .restore body =>
    let answer := s.app.postRestore m.now body
    ({ s with app := answer.1 }, answer.2.isOk)
  | .replicate op => ({ s with app := s.app.postReplicate m.now op }, true)
  | .get key =>
    let r := s.app.store.getWithTtl m.now key
    ({ s.withStore r.1 with
        metrics := s.metrics.record m.clock .get m.latencyUs (some r.2.isSome) }, r.2.isSome)
  | .keys => (s.withStore (s.app.store.keys m.now).1, true)
  | .keyStats => (s.withStore (s.app.store.detailedKeys m.now).1, true)
  | .snapshot => (s.withStore (s.app.store.exportEntries m.now).1, true)

/-- `GET /metrics` -/
def getMetrics (clock : ℤ) (s : MeteredApp ν) : MetricsAnswer where
  keys := s.app.store.size
  maxEntries := s.app.store.maxEntries
  evictions := s.app.store.evictionCount
  evictionPolicy := s.app.store.policy
  evictionSampleSize := s.app.store.evictionSampleSize
  snapshot := s.metrics.snapshot clock

end MeteredApp

/-- `metrics ? metrics.sets + metrics.deletes + metrics.evictions : 0` -/
def keyRefreshToken : Option MetricsAnswer → ℕ
  | some metrics => metrics.snapshot.sets + metrics.snapshot.deletes + metrics.evictions
  | none => 0

/-! ## Runs of the node -/

inductive ServerAction (ν : Type) where
  | request (m : Moment ν) (r : ServedRequest ν)
  /-- An election or a promotion. -/
  | lead (leadership : Leadership)
  /-- The rows of a snapshot are loaded, from a file or from the primary. -/
  | load (now : ν) (rows : List (SnapshotRow ν))
  /-- The timer of the store fires. -/
  | sweep (now : ν)

def ServerAction.apply (s : MeteredApp ν) : ServerAction ν → MeteredApp ν
  | request m r => (s.handle m r).1
  | lead leadership => { s with app := { s.app with leadership } }
  | load now rows => s.withStore (loadRows now s.app.store rows)
  | sweep now => s.withStore (s.app.store.sweep now).1

def serverStep (s : MeteredApp ν) (a : ServerAction ν) : Option (MeteredApp ν × List Empty) :=
  some (a.apply s, [])

/-- A node that has just started. -/
def MeteredApp.start (opts : CacheStoreOptions) (maxKeyLength : ℕ) (leadership : Leadership)
    (clock : ℤ) : MeteredApp ν where
  app := { store := .new opts, leadership, maxKeyLength }
  metrics := .new clock

/-! ## The dashboard -/

/-- The routes that write. -/
def ServedRequest.isWrite : ServedRequest ν → Bool
  | write _ | restore _ | replicate _ => true
  | _ => false

/-- Whether the stores differ in a key or in its value. -/
def CacheStore.differs (s s' : CacheStore ν) : Bool :=
  (s.entries.keys ++ s'.entries.keys).any fun k => s.values k ≠ s'.values k

/-- Whether a request that writes succeeds and changes what is stored. -/
def ServerAction.changes (s : MeteredApp ν) : ServerAction ν → Bool
  | request m r => r.isWrite && (s.handle m r).2 && s.app.store.differs (s.handle m r).1.app.store
  | _ => false

/-- The node, and the dashboard of its last render: the token `useKeyStats` was given, whether its
fetch is on its way, and whether a request has changed the stored values since the list was read
that is shown or was answered last. -/
structure Dashboard (ν : Type) where
  node : MeteredApp ν
  token : ℕ
  fetching : Bool
  outdated : Bool

inductive DashboardAction (ν : Type) where
  | node (a : ServerAction ν)
  /-- The answer to `GET /metrics` is rendered. -/
  | poll (clock : ℤ)
  /-- The node answers `GET /keys/stats`. -/
  | listed (now : ν)

def dashboardStep (d : Dashboard ν) : DashboardAction ν → Option (Dashboard ν × List Empty)
  | .node a =>
    some ({ d with node := a.apply d.node, outdated := d.outdated || a.changes d.node }, [])
  | .poll clock =>
    let token := keyRefreshToken (some (d.node.getMetrics clock))
    some ({ d with token, fetching := d.fetching || token ≠ d.token }, [])
  | .listed now =>
    if d.fetching then
      some ({ d with
          node := d.node.withStore (d.node.app.store.detailedKeys now).1
          fetching := false
          outdated := false }, [])
    else none

/-- A dashboard that has just been opened; nothing has been polled, and the first fetch is on its
way. -/
def Dashboard.start (node : MeteredApp ν) : Dashboard ν where
  node
  token := keyRefreshToken none
  fetching := true
  outdated := false

/-! ## What the counters say -/

/-- The keys that are live. -/
def CacheStore.liveKeys (now : ν) (s : CacheStore ν) : Finset JsString :=
  (live now s.entries).keys.toFinset

/-- Set one after the other, some entry finds the capacity filled by other keys that are live;
`live` are those that are at the start. An entry whose deadline is no later than now is not live
even when it has just been set. -/
def Overfills (now : ν) (maxEntries : ℕ) (live : Finset JsString) : List (ValidatedEntry ν) → Prop
  | [] => False
  | e :: es => maxEntries ≤ (live.erase e.key).card ∨
    Overfills now maxEntries
      (if (deadline now e.ttl).any (· ≤ now) then live.erase e.key else insert e.key live) es

/-- Whether a request that succeeds is counted. -/
def MeteredApp.Counts (now : ν) (s : MeteredApp ν) : ServedRequest ν → Prop
  | .write (.set _) | .write (.delete _) => True
  | .write (.invalidate _) | .write .flush => False
  | .restore body => Overfills now s.app.store.maxEntries (s.app.store.liveKeys now)
      (s.app.restoredEntries now body)
  | .replicate (.set key value ttl) =>
    Overfills now s.app.store.maxEntries (s.app.store.liveKeys now) [{ key, value, ttl }]
  | .replicate _ => False
  | .get _ | .keys | .keyStats | .snapshot => False

/-- A request that changes what is stored is counted. -/
def ChangesCount (d : Dashboard ν) : DashboardAction ν → Prop
  | .node (.request m r) =>
    (ServerAction.request m r).changes d.node → d.node.Counts m.now r
  | _ => True

end InkCache
