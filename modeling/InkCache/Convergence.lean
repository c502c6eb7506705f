import InkCache.GatewaySync

/-!
# Gateways that come to agree

The purpose of gossip: gateways that nodes register with one by one come to know the same nodes. A
round is a stretch of a run in which every gateway has had one exchange with each of its peers,
whatever else happens in between: other ticks, late messages, health checks.
-/

namespace InkCache

open Lib

namespace GatewayCluster

variable {G : Type}

/-- No node is deregistered. -/
def NoneDeregistered {ν : Type} (_ : GatewayCluster G) : GossipAction G ν → Prop
  | .gateway _ (.deleteNodes _) => False
  | _ => True

/-- No node is registered or deregistered. -/
def KeepsMembers {ν : Type} (_ : GatewayCluster G) : GossipAction G ν → Prop
  | .gateway _ (.postNodes _) | .gateway _ (.deleteNodes _) => False
  | _ => True

/-- The url is one that some gateway was configured with, or that was registered with one. -/
def Member (clusterNodes : G → Option JsString) (s : GatewayCluster G) (url : JsString) : Prop :=
  (∃ i, url ∈ resolveClusterNodes (clusterNodes i)) ∨ ∃ i, (i, url) ∈ s.registrations

/-- The nodes that a gateway holds for healthy. -/
def healthyNodes (s : GatewayCluster G) (i : G) : Finset JsString :=
  (((s.gateways i).status.filter NodeHealth.healthy).map NodeHealth.url).toFinset

/-- Two gateways are linked if one is a peer of the other. -/
def net (peers : G → List G) : SimpleGraph G := .fromRel fun i j => j ∈ peers i

variable [DecidableEq G] (hashToUint32 : JsString → Hash) (peers : G → List G) (ν : Type)

/-- A run in which the members stay as they are leads from one state to the other. -/
def Quietly (s s' : GatewayCluster G) : Prop :=
  ∃ log, Run (step hashToUint32 peers) (fun s (a : GossipAction G ν) => s.KeepsMembers a) s log s'

/-- On the way from `s` to `s'`, `i` sends its peer `j` the nodes it knows, `j` answers, and `i`
merges the answer. -/
inductive Exchanged (i j : G) (s s' : GatewayCluster G) : Prop
  | mk {s₁ s₂ s₃ s₄ s₅ s₆ : GatewayCluster G} {es₁ es₂ es₃ : List GatewayResponse}
      (before : Quietly hashToUint32 peers ν s s₁)
      (sent : s₁.step hashToUint32 peers (.tick i : GossipAction G ν) = some (s₂, es₁))
      (meanwhile : Quietly hashToUint32 peers ν s₂ s₃)
      (answered : s₃.step hashToUint32 peers
        (.answer ⟨i, j, (s₁.gateways i).known⟩ : GossipAction G ν) = some (s₄, es₂))
      (later : Quietly hashToUint32 peers ν s₄ s₅)
      (merged : s₅.step hashToUint32 peers
        (.merge ⟨i, (s₄.gateways j).known⟩ : GossipAction G ν) = some (s₆, es₃))
      (after : Quietly hashToUint32 peers ν s₆ s')

/-- Every gateway has had an exchange with each of its peers. -/
structure Round (s s' : GatewayCluster G) : Prop where
  quietly : Quietly hashToUint32 peers ν s s'
  exchanged : ∀ i, ∀ j ∈ peers i, Exchanged hashToUint32 peers ν i j s s'

end GatewayCluster

end InkCache
