import InkCache.Gateway

/-!
# Gateways that gossip (`src/network/gateway-sync.ts`)

On each tick a gateway posts the nodes it knows to every peer; the peer merges them and answers with
what it then knows, which the gateway merges. A message is delivered at any later time or never.
`registrations` and `removals` only record what clients asked for: the nodes that registered with a
gateway directly and were not deregistered there since, and the nodes a gateway was made to forget.
-/

namespace InkCache

open Lib

variable (hashToUint32 : JsString → Hash)

/-! ## One round trip -/

/-- `syncWithPeer` from `a` to `b`: the body of the request, the answer, and its merge. -/
def syncWithPeer (ν : Type) (a b : Gateway) : Gateway × Gateway :=
  match b.postSync hashToUint32 (some (Gateway.syncBody a.known : Json ν)) with
  | (b, .synced nodes) => (a.receiveSync hashToUint32 (Gateway.syncBody nodes : Json ν), b)
  | (b, _) => (a, b)

/-- Both know what either knew before, and a second round trip changes nothing. -/
def Equalised (ν : Type) (a b : Gateway) : Prop :=
  let r := syncWithPeer hashToUint32 ν a b
  r.1.known.toFinset = a.known.toFinset ∪ b.known.toFinset ∧
    r.2.known.toFinset = a.known.toFinset ∪ b.known.toFinset ∧
    syncWithPeer hashToUint32 ν r.1 r.2 = r

/-- Every url of `a` is known to `b` or is one that `b` makes of a url of `a`; and what is made of a
url of either is a url of one of them. -/
def Mergeable (a b : Gateway) : Prop :=
  (∀ u ∈ a.known, u ∈ b.known ∨ ∃ v ∈ a.known, normalized v = u) ∧
    ∀ u, u ∈ a.known ∨ u ∈ b.known → normalized u ∈ a.known ∨ normalized u ∈ b.known

/-! ## Any number of gateways -/

structure SyncRequest (G : Type) where
  sender : G
  receiver : G
  nodes : List JsString
  deriving DecidableEq

structure SyncReply (G : Type) where
  receiver : G
  nodes : List JsString
  deriving DecidableEq

structure GatewayCluster (G : Type) where
  gateways : G → Gateway
  requests : List (SyncRequest G)
  replies : List (SyncReply G)
  registrations : List (G × JsString)
  removals : List (G × JsString)

inductive GossipAction (G ν : Type) where
  | tick (i : G)
  /-- The request reaches `POST /cluster/sync` of its receiver. -/
  | answer (m : SyncRequest G)
  | merge (m : SyncReply G)
  /-- A step of one gateway that is no gossip. -/
  | gateway (i : G) (a : GatewayAction ν)

def GossipAction.isGossip {G ν : Type} : GossipAction G ν → Bool
  | gateway _ _ => false
  | _ => true

namespace GatewayCluster

variable {G ν : Type} [DecidableEq G] (peers : G → List G)

def setGateway (i : G) (g : Gateway) (s : GatewayCluster G) : GatewayCluster G :=
  { s with gateways := Function.update s.gateways i g }

/-- Records a registration or a removal. -/
def record (i : G) (s : GatewayCluster G) : GatewayAction ν → GatewayCluster G
  | .postNodes body =>
    match Gateway.bodyUrl body with
    | none => s
    | some url => { s with registrations := (i, normalized url) :: s.registrations }
  | .deleteNodes body =>
    match Gateway.bodyUrl body with
    | none => s
    | some url =>
      { s with
        registrations := s.registrations.filter fun r => r ≠ (i, normalized url)
        removals :=
          if normalized url ∈ (s.gateways i).known then (i, normalized url) :: s.removals
          else s.removals }
  | _ => s

/-- One of the handlers that have no part in gossip. -/
def act (i : G) (a : GatewayAction ν) (s : GatewayCluster G) :
    Option (GatewayCluster G × List GatewayResponse) :=
  (gatewayStep hashToUint32 (s.gateways i) a).map fun r => ((s.record i a).setGateway i r.1, r.2)

def step (s : GatewayCluster G) :
    GossipAction G ν → Option (GatewayCluster G × List GatewayResponse)
  | .tick i =>
    some ({ s with
        requests := s.requests ++ (peers i).map fun j =>
          { sender := i, receiver := j, nodes := (s.gateways i).known } }, [])
  | .answer m =>
    if m ∈ s.requests then
      let r := (s.gateways m.receiver).postSync hashToUint32
        (some (Gateway.syncBody m.nodes : Json ν))
      let s := s.setGateway m.receiver r.1
      some ({ s with
          requests := s.requests.erase m
          replies := match r.2 with
            | .synced nodes => { receiver := m.sender, nodes } :: s.replies
            | _ => s.replies }, [r.2])
    else none
  | .merge m =>
    if m ∈ s.replies then
      let g := (s.gateways m.receiver).receiveSync hashToUint32
        (Gateway.syncBody m.nodes : Json ν)
      let s := s.setGateway m.receiver g
      some ({ s with replies := s.replies.erase m }, [])
    else none
  | .gateway i a =>
    match a with
    | .postSync _ | .receiveSync _ => none
    | .checkAll => s.act hashToUint32 i (.checkAll : GatewayAction ν)
    | .checked k healthy => s.act hashToUint32 i (.checked k healthy : GatewayAction ν)
    | .postNodes body => s.act hashToUint32 i (.postNodes body)
    | .deleteNodes body => s.act hashToUint32 i (.deleteNodes body)

/-- The gateways have started with the nodes they were configured with. -/
def boot (virtualNodes : ℕ) (clusterNodes : G → Option JsString) : GatewayCluster G where
  gateways i := .start hashToUint32 virtualNodes (resolveClusterNodes (clusterNodes i))
  requests := []
  replies := []
  registrations := []
  removals := []

/-- No gateway that the node registered with directly has it registered still. -/
def Deregistered (s : GatewayCluster G) (url : JsString) : Prop := ∀ i, (i, url) ∉ s.registrations

/-- Gossip puts no deregistered node back into a gateway that it was removed from. -/
def Sticks (ν : Type) (s : GatewayCluster G) : Prop :=
  ∀ (a : GossipAction G ν) s' es, s.step hashToUint32 peers a = some (s', es) →
    a.isGossip = true → ∀ i url, (i, url) ∈ s.removals → s.Deregistered url →
      url ∉ (s.gateways i).known → url ∉ (s'.gateways i).known

end GatewayCluster

/-! ## Where a url may turn up -/

/-- The url becomes `u` on a way from gateway to gateway. -/
def Leads (v u : JsString) : Prop := ∃ n, normalized^[n] v = u

namespace GatewayCluster

variable {G ν : Type}

/-- A gateway knows the url, or a message carries it. -/
def Carries (s : GatewayCluster G) (v : JsString) : Prop :=
  (∃ i, v ∈ (s.gateways i).known) ∨ (∃ m ∈ s.requests, v ∈ m.nodes) ∨ ∃ m ∈ s.replies, v ∈ m.nodes

/-- A deregistration that leaves no gateway with the node registered directly finds no other gateway
that knows it, and no message that carries it; and no registered url becomes a different one that
was removed. -/
def Isolated (s : GatewayCluster G) : GossipAction G ν → Prop
  | .gateway i (.deleteNodes body) => ∀ url ∈ (Gateway.bodyUrl body).map normalized,
      url ∈ (s.gateways i).known → (∀ j, (j, url) ∈ s.registrations → j = i) →
        (∀ j, ∀ v ∈ (s.gateways j).known, Leads v url → j = i ∧ v = url) ∧
        (∀ m ∈ s.requests, ∀ v ∈ m.nodes, ¬ Leads v url) ∧
        ∀ m ∈ s.replies, ∀ v ∈ m.nodes, ¬ Leads v url
  | .gateway _ (.postNodes body) => ∀ url ∈ (Gateway.bodyUrl body).map normalized,
      ∀ r ∈ s.removals, Leads url r.2 → r.2 = url
  | _ => True

end GatewayCluster

end InkCache
