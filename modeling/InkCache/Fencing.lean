import InkCache.ReplicaPair
import InkCache.Cluster
import InkCache.TwinStores

/-!
# Replication in a cluster that elects its primary

Every node answers writes as its role has it, and what it forwards is delivered to
`POST /internal/replicate` at any later time or never. That route looks neither at the sender nor
at the role of the receiver, and an op carries no term.
-/

namespace InkCache

open Lib

variable {N ν : Type}

structure ReplicationMessage (N ν : Type) where
  issuer : N
  url : JsString
  op : ReplicationOp ν
  deriving DecidableEq

structure FencingState (N ν : Type) where
  cluster : ClusterState N
  stores : N → CacheStore ν
  messages : List (ReplicationMessage N ν)

inductive FencingEvent (N ν : Type) where
  | cluster (e : ClusterEvent N)
  | issued (m : ReplicationMessage N ν)
  deriving DecidableEq

inductive FencingAction (N ν : Type) where
  | cluster (a : ClusterAction N)
  | request (i : N) (now : ν) (r : WriteRequest ν)
  | restore (i : N) (now : ν) (body : Option (Json ν))
  /-- A client reads, or the timer of the store fires. -/
  | observe (i : N) (now : ν) (op : StoreOp ν)
  | replicate (m : ReplicationMessage N ν) (receiver : N) (now : ν)
  /-- The snapshot a node pulls from a leader it has adopted. -/
  | resync (i : N) (now : ν) (rows : List (SnapshotRow ν))

namespace FencingState

def app (s : FencingState N ν) (i : N) : App ν where
  store := s.stores i
  leadership := (s.cluster.nodes i).leadership

variable [DecidableEq N] [JsNumber ν] (C : ClusterConfig N)

def setStore (i : N) (store : CacheStore ν) (s : FencingState N ν) : FencingState N ν :=
  { s with stores := Function.update s.stores i store }

def step (s : FencingState N ν) :
    FencingAction N ν → Option (FencingState N ν × List (FencingEvent N ν))
  | .cluster a =>
    (s.cluster.step C a).map fun r => ({ s with cluster := r.1 }, r.2.map .cluster)
  | .request i now r =>
    let answer := (s.app i).write now r
    let issued := answer.2.2.map fun m => { issuer := i, url := m.1, op := m.2 }
    some ({ s.setStore i answer.1.store with messages := s.messages ++ issued },
      issued.map .issued)
  | .restore i now body => some (s.setStore i ((s.app i).postRestore now body).1.store, [])
  | .observe i now op =>
    if op.isObservation || op.isCleanup then some (s.setStore i (op.apply now (s.stores i)), [])
    else none
  | .replicate m receiver now =>
    if m ∈ s.messages ∧ C.url receiver = m.url then
      some ({ s.setStore receiver ((s.app receiver).postReplicate now m.op).store with
          messages := s.messages.erase m }, [])
    else none
  | .resync i now rows => some (s.setStore i (loadRows now (s.stores i) rows), [])

end FencingState

/-- The cluster after every node has started, with the roles and the stores it was given. -/
def FencingState.boot (C : ClusterConfig N) (role : N → Role) (primaryUrl : N → Option JsString)
    (replicaUrls : N → List JsString) (stores : N → CacheStore ν) : FencingState N ν where
  cluster := .boot C role primaryUrl replicaUrls
  stores := stores
  messages := []

/-- No node is promoted by hand. -/
def ByElection (_ : FencingState N ν) : FencingAction N ν → Prop
  | .cluster (.promote _ _) => False
  | _ => True

instance (s : FencingState N ν) : ∀ a, Decidable (ByElection s a)
  | .cluster (.promote _ _) => instDecidableFalse
  | .cluster (.campaignForPrimary _) | .cluster (.runElection _) | .cluster (.receiveRequest _)
  | .cluster (.receiveReply _) | .cluster (.giveUp _ _) | .cluster (.conclude _)
  | .cluster (.receiveLeader _) | .request _ _ _ | .restore _ _ _ | .observe _ _ _
  | .replicate _ _ _ | .resync _ _ _ => instDecidableTrue

/-- What the election layer reported. -/
def clusterLog : List (FencingEvent N ν) → List (ClusterEvent N) :=
  List.filterMap fun
    | .cluster e => some e
    | .issued _ => none

/-! ## What a log says of a primary -/

/-- The node stood, granted a vote or adopted a leader in the term. -/
def Heard (log : List (ClusterEvent N)) (i : N) (t : ℤ) : Prop :=
  .started i t ∈ log ∨ (∃ c, .granted i t c ∈ log) ∨ ∃ url, .adopted i t url ∈ log

/-- The node adopts a leader, or grants a vote in a term later than any it has heard of. -/
def Deposes (log : List (ClusterEvent N)) (i : N) : ClusterEvent N → Prop
  | .adopted j _ _ => j = i
  | .granted j t _ => j = i ∧ 0 < t ∧ ∀ t', Heard log i t' → t' < t
  | _ => False

/-- The node was deposed, and has won no election since. -/
def Deposed (log : List (ClusterEvent N)) (i : N) : Prop :=
  ∃ log₁ e log₂, log = log₁ ++ e :: log₂ ∧ Deposes log₁ i e ∧ ∀ t, .promoted i t ∉ log₂

/-- Of three nodes the first wins a term and answers a write, and then the second wins the next. -/
def takeover : List (FencingAction (Fin 3) ℚ) := [
  .cluster (.campaignForPrimary 0),
  .cluster (.receiveRequest ⟨0, 1, 1, js "http://a"⟩),
  .cluster (.receiveReply ⟨1, 0, 1, .voted ⟨true, 1⟩⟩),
  .cluster (.giveUp ⟨0, 1, .campaignForPrimary, [(1, some true), (2, none)]⟩ 2),
  .cluster (.conclude ⟨0, 1, .campaignForPrimary, [(1, some true), (2, some false)]⟩),
  .request 0 0 (setRequest (js "k") (js "1")),
  .cluster (.receiveLeader ⟨0, 1, 1, js "http://a"⟩),
  .cluster (.campaignForPrimary 1),
  .cluster (.receiveRequest ⟨1, 2, 2, js "http://b"⟩),
  .cluster (.receiveReply ⟨2, 1, 2, .voted ⟨true, 2⟩⟩),
  .cluster (.giveUp ⟨1, 2, .campaignForPrimary, [(0, none), (2, some true)]⟩ 0),
  .cluster (.conclude ⟨1, 2, .campaignForPrimary, [(0, some false), (2, some true)]⟩)]

end InkCache
