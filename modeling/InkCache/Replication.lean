import InkCache.Cache

/-!
# Replication (`src/network/replication.ts`)

What a primary sends its replicas, and what a replica makes of it. `loadBody` is `none` where the
body of a snapshot is not of the type the program declares for it.
-/

namespace InkCache

variable {ν : Type} [JsNumber ν]

inductive ReplicationOp (ν : Type) where
  | set (key value : JsString) (ttl : Option ν)
  | delete (key : JsString)
  | invalidate (pre : JsString)
  | flush
  deriving DecidableEq

/-- One independent message to each replica. -/
def forwardToReplicas (replicaUrls : List JsString) (op : ReplicationOp ν) :
    List (JsString × ReplicationOp ν) :=
  replicaUrls.map (·, op)

def applyReplicationOp (now : ν) (s : CacheStore ν) : ReplicationOp ν → CacheStore ν
  | .set key value ttl => s.set now key value ttl
  | .delete key => (s.delete key).1
  | .invalidate pre => (s.deleteByPrefix pre).1
  | .flush => s.clear

/-! ## Snapshots -/

def ttlJson : Option ν → Json ν
  | none => .null
  | some t => .num t

/-- A row as `JSON.stringify` sees it. -/
def SnapshotRow.toJson (row : SnapshotRow ν) : Json ν :=
  .obj [(js "key", .str row.key), (js "value", .str row.value), (js "ttl", ttlJson row.ttl)]

/-- The body that `GET /snapshot` answers. -/
def snapshotBody (rows : List (SnapshotRow ν)) : Json ν :=
  .obj [(js "keys", .arr (rows.map SnapshotRow.toJson)), (js "count", .num rows.length)]

/-- `entry.ttl ?? undefined` -/
def rowTtl : PropertyValue ν → Option (Option ν)
  | .undefined | .value .null => some none
  | .value (.num t) => some (some t)
  | _ => none

def snapshotRow (entry : Json ν) : Option (SnapshotRow ν) :=
  match readField entry (js "key"), readField entry (js "value"),
    rowTtl (readField entry (js "ttl")) with
  | .value (.str key), .value (.str value), some ttl => some { key, value, ttl }
  | _, _, _ => none

def snapshotRows (body : Json ν) : Option (List (SnapshotRow ν)) :=
  match readField body (js "keys") with
  | .value (.arr keys) => keys.mapM snapshotRow
  | _ => none

/-- The loop of `syncFromPrimary` over the rows of a snapshot. -/
def loadRows (now : ν) (s : CacheStore ν) (rows : List (SnapshotRow ν)) : CacheStore ν :=
  rows.foldl (fun s entry => s.set now entry.key entry.value entry.ttl) s

/-- The store and the number `syncFromPrimary` returns, from the body it was answered. -/
def loadBody (now : ν) (s : CacheStore ν) (body : Json ν) : Option (CacheStore ν × ℕ) :=
  (snapshotRows body).map fun rows => (loadRows now s rows, rows.length)

/-- The attempts `syncFromPrimary` makes before it gives up. -/
def maxAttempts : ℕ := 5

end InkCache
