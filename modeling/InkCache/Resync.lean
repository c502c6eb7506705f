import InkCache.ReplicaPair

/-!
# A replica that follows leaders

A replica adopts one leader after another (`setOnLeaderElected` of `src/network/server.ts`), and
for each runs `syncFromPrimary`, which may still be under way when it adopts the next. The adopted
leader forwards what it writes. `epoch` counts the adoptions; syncs and messages carry the one they
belong to, and messages and snapshots the number of the requests answered before, none of which the
program knows.
-/

namespace InkCache

open Lib

variable {ν L : Type} [JsNumber ν] [DecidableEq L]

/-- How far an attempt of `syncFromPrimary` has come. -/
inductive SyncPhase (ν : Type) where
  | requested
  /-- The snapshot was taken when `number` requests had been answered. -/
  | answered (rows : List (SnapshotRow ν)) (number : ℕ)
  /-- Between a failed attempt and the next. -/
  | waiting

def SyncPhase.rows : SyncPhase ν → List (SnapshotRow ν)
  | answered rows _ => rows
  | _ => []

/-- An op on its way, and when the leader forwarded it. -/
structure Forwarded (ν : Type) where
  epoch : ℕ
  number : ℕ
  op : ReplicationOp ν

structure Sync (ν L : Type) where
  leader : L
  epoch : ℕ
  attempt : ℕ
  phase : SyncPhase ν

structure Following (ν L : Type) where
  replica : CacheStore ν
  leaders : L → App ν
  leader : L
  epoch : ℕ
  syncs : List (Sync ν L)
  messages : List (Forwarded ν)
  arrived : List (Forwarded ν)
  /-- How many requests the leaders have answered. -/
  number : ℕ
  /-- Whether the sync of this epoch has returned with its rows loaded. -/
  synced : Bool

inductive FollowAction (ν L : Type) where
  | adopt (l : L)
  /-- The adopted leader answers a request that writes. -/
  | request (now : ν) (r : WriteRequest ν)
  /-- The store of another node changes. -/
  | drift (l : L) (store : CacheStore ν)
  /-- The leader of a sync answers its `GET /snapshot`. -/
  | serve (now : ν) (i : ℕ)
  /-- The answer arrives, and its rows are set. -/
  | load (now : ν) (i : ℕ)
  | fail (i : ℕ)
  | retry (i : ℕ)
  | deliver (now : ν) (i : ℕ)

namespace Following

def setLeader (l : L) (app : App ν) (s : Following ν L) : Following ν L :=
  { s with leaders := Function.update s.leaders l app }

/-- The replica is one of those the leader forwards to. -/
def step (url : JsString) (s : Following ν L) :
    FollowAction ν L → Option (Following ν L × List Empty)
  | .adopt l =>
    some ({ s with
        leader := l
        epoch := s.epoch + 1
        syncs := { leader := l, epoch := s.epoch + 1, attempt := 1, phase := .requested } :: s.syncs
        synced := false }, [])
  | .request now r =>
    let answer := (s.leaders s.leader).write now r
    let s := s.setLeader s.leader answer.1
    some ({ s with
        messages := s.messages ++ (sentTo url answer.2.2).map (⟨s.epoch, s.number, ·⟩)
        number := s.number + 1 }, [])
  | .drift l store =>
    if l = s.leader then none
    else some (s.setLeader l { s.leaders l with store }, [])
  | .serve now i =>
    match s.syncs[i]? with
    | some ⟨l, epoch, attempt, .requested⟩ =>
      let answer := (s.leaders l).getSnapshot now
      let s := s.setLeader l answer.1
      some ({ s with
          syncs := s.syncs.set i ⟨l, epoch, attempt, .answered answer.2 s.number⟩ }, [])
    | _ => none
  | .load now i =>
    match s.syncs[i]? with
    | some ⟨_, epoch, _, .answered rows _⟩ =>
      some ({ s with
          replica := loadRows now s.replica rows
          syncs := s.syncs.eraseIdx i
          synced := s.synced || decide (epoch = s.epoch) }, [])
    | _ => none
  | .fail i =>
    match s.syncs[i]? with
    | none | some ⟨_, _, _, .waiting⟩ => none
    | some ⟨l, epoch, attempt, _⟩ =>
      if attempt = maxAttempts then some ({ s with syncs := s.syncs.eraseIdx i }, [])
      else some ({ s with syncs := s.syncs.set i ⟨l, epoch, attempt, .waiting⟩ }, [])
  | .retry i =>
    match s.syncs[i]? with
    | some ⟨l, epoch, attempt, .waiting⟩ =>
      some ({ s with syncs := s.syncs.set i ⟨l, epoch, attempt + 1, .requested⟩ }, [])
    | _ => none
  | .deliver now i =>
    match s.messages[i]? with
    | none => none
    | some m =>
      some ({ s with
          replica := applyReplicationOp now s.replica m.op
          messages := s.messages.eraseIdx i
          arrived := m :: s.arrived }, [])

/-- The store of the leader that was adopted last. -/
def leaderStore (s : Following ν L) : CacheStore ν := (s.leaders s.leader).store

/-- The ops in flight that the leader has forwarded since it was adopted. -/
def inFlight (s : Following ν L) : List (ReplicationOp ν) :=
  (s.messages.filter fun m => m.epoch = s.epoch).map Forwarded.op

/-- Whether an op in flight will decide the key. -/
def decided (s : Following ν L) (k : JsString) : Bool :=
  s.inFlight.any fun op => (op.writes k).isSome

/-- The ops of the leader that have arrived, of those it forwarded after a snapshot was taken. -/
def arrivedSince (s : Following ν L) (number : ℕ) : List (ReplicationOp ν) :=
  (s.arrived.filter fun m => m.epoch = s.epoch && number ≤ m.number).map Forwarded.op

/-- What the leader has forwarded since it took the snapshot that it has answered with, and has
arrived. -/
def overtaking (s : Following ν L) : List (ReplicationOp ν) :=
  s.syncs.flatMap fun c => if c.epoch = s.epoch then
    match c.phase with
    | .answered _ number => s.arrivedSince number
    | _ => []
  else []

end Following

/-- Whether every row is set with room for it. -/
def fits (now : ν) : CacheStore ν → List (SnapshotRow ν) → Bool
  | _, [] => true
  | s, row :: rows => decide ((s.entries.delete row.key).size < s.maxEntries) &&
      fits now (s.set now row.key row.value row.ttl) rows

/-- No capacity is reached, and nothing has expired that a snapshot should show. -/
def Unhindered (s : Following ν L) : FollowAction ν L → Prop
  | .request now r => ∀ m ∈ ((s.leaders s.leader).write now r).2.2, m.2.hasRoom s.leaderStore
  | .serve now i => ∀ c ∈ s.syncs[i]?,
    ∀ e ∈ (s.leaders c.leader).store.entries.entries, e.2.isExpired now = false
  | .load now i => ∀ c ∈ s.syncs[i]?, fits now s.replica c.phase.rows
  | .deliver _ i => ∀ m ∈ s.messages[i]?, m.op.hasRoom s.replica
  | _ => True

/-- What the order of events may not be. Ops of the leader that conflict arrive in order. What an
earlier leader has sent, an op or a snapshot, does not arrive after the replica has synced, nor does
it touch a key that has been written by an op that overtook the leader's snapshot. When that
snapshot is loaded, no op that overtook it has written one of its keys otherwise, and each key that
the replica holds beside it was written by one; keys that an op in flight will decide apart. -/
def Undisturbed (s : Following ν L) : FollowAction ν L → Prop
  | .load _ i => ∀ c ∈ s.syncs[i]?,
    if c.epoch = s.epoch then
      (∀ row ∈ c.phase.rows, s.decided row.key = true ∨
        ∀ op ∈ s.overtaking, ∀ v ∈ op.writes row.key, v = some row.value) ∧
      ∀ k ∈ s.replica.entries.keys, k ∉ c.phase.rows.map SnapshotRow.key →
        s.decided k = true ∨ ∃ op ∈ s.overtaking, (op.writes k).isSome
    else s.synced = false ∧
      ∀ row ∈ c.phase.rows, ∀ op ∈ s.overtaking, op.writes row.key = none
  | .deliver _ i => ∀ m ∈ s.messages[i]?,
    if m.epoch = s.epoch then
      ∀ m' ∈ s.messages.take i, m'.epoch = s.epoch → m'.op.conflicts m.op = false
    else s.synced = false ∧ ∀ op ∈ s.overtaking, op.conflicts m.op = false
  | _ => True

instance (s : Following ν L) : ∀ a, Decidable (Unhindered s a)
  | .request now r => inferInstanceAs (Decidable (∀ m ∈ ((s.leaders s.leader).write now r).2.2,
      m.2.hasRoom s.leaderStore))
  | .serve now i => inferInstanceAs (Decidable (∀ c ∈ s.syncs[i]?,
      ∀ e ∈ (s.leaders c.leader).store.entries.entries, e.2.isExpired now = false))
  | .load now i => inferInstanceAs (Decidable (∀ c ∈ s.syncs[i]?, fits now s.replica c.phase.rows))
  | .deliver _ i => inferInstanceAs (Decidable (∀ m ∈ s.messages[i]?, m.op.hasRoom s.replica))
  | .adopt _ | .drift _ _ | .fail _ | .retry _ => instDecidableTrue

instance (s : Following ν L) : ∀ a, Decidable (Undisturbed s a)
  | .load _ i => inferInstanceAs (Decidable (∀ c ∈ s.syncs[i]?,
    if c.epoch = s.epoch then
      (∀ row ∈ c.phase.rows, s.decided row.key = true ∨
        ∀ op ∈ s.overtaking, ∀ v ∈ op.writes row.key, v = some row.value) ∧
      ∀ k ∈ s.replica.entries.keys, k ∉ c.phase.rows.map SnapshotRow.key →
        s.decided k = true ∨ ∃ op ∈ s.overtaking, (op.writes k).isSome
    else s.synced = false ∧
      ∀ row ∈ c.phase.rows, ∀ op ∈ s.overtaking, op.writes row.key = none))
  | .deliver _ i => inferInstanceAs (Decidable (∀ m ∈ s.messages[i]?,
    if m.epoch = s.epoch then
      ∀ m' ∈ s.messages.take i, m'.epoch = s.epoch → m'.op.conflicts m.op = false
    else s.synced = false ∧ ∀ op ∈ s.overtaking, op.conflicts m.op = false))
  | .request _ _ | .serve _ _ | .adopt _ | .drift _ _ | .fail _ | .retry _ => instDecidableTrue

/-- A replica with any content, that has adopted none of the leaders yet; each of them would
forward to it. -/
structure Unled (url : JsString) (s : Following ν L) : Prop where
  syncs : s.syncs = []
  messages : s.messages = []
  arrived : s.arrived = []
  synced : s.synced = false
  urls : ∀ l, (s.leaders l).leadership.replicaUrls.count url = 1

/-- A replica that has loaded one key from its file, and two leaders that hold another. -/
def restarted (key : JsString) : Following ℚ Bool where
  replica := (CacheStore.new {}).set 0 key (js "0") none
  leaders _ := {
    store := (CacheStore.new {}).set 0 (js "k") (js "1") none
    leadership := {
      role := .primary
      primaryUrl := none
      replicaUrls := [js "http://replica"]
      election := .new (js "http://leader") } }
  leader := false
  epoch := 0
  syncs := []
  messages := []
  arrived := []
  number := 0
  synced := false

end InkCache
