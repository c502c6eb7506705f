import InkCache.Cluster

/-!
# The documented deployment

An original primary, and replicas that elect a successor among themselves: each replica's
`INKCACHE_PRIMARY_URL` is the original primary, and its `INKCACHE_PEER_URLS` are the other replicas.
What is sent to a url is handled by whoever has it. While the original primary is cut off the
replicas' checks of it fail, so they may stand for election at any time.
-/

namespace InkCache

open Lib

variable {N : Type} [DecidableEq N]

structure Deployment (N : Type) where
  replicas : ClusterConfig N
  selfUrl_ne_nil : ∀ i, replicas.candidateId i ≠ []
  primaryUrl : JsString
  primaryUrl_ne : ∀ i, replicas.url i ≠ primaryUrl
  primaryId : JsString
  replicaUrls : List JsString

structure DeploymentState (N : Type) where
  replicas : ClusterState N
  original : Leadership

inductive DeploymentAction (N : Type) where
  | replicas (a : ClusterAction N)
  /-- The original primary receives what was sent to its url. -/
  | originalReceivesRequest (m : VoteRequest N)
  | originalReceivesLeader (m : Announcement N)

namespace Deployment

variable (D : Deployment N)

def step (s : DeploymentState N) :
    DeploymentAction N → Option (DeploymentState N × List (ClusterEvent N))
  | .replicas a => (s.replicas.step D.replicas a).map fun r => ({ s with replicas := r.1 }, r.2)
  | .originalReceivesRequest m =>
    if m ∈ s.replicas.requests ∧ D.replicas.url m.receiver = D.primaryUrl then
      let r := s.original.requestVote m.term m.candidateId
      let reply : VoteReply N :=
        { sender := m.receiver, receiver := m.sender, requested := m.term, response := r.2 }
      some ({
          original := r.1
          replicas := { s.replicas with
            requests := s.replicas.requests.erase m
            replies := reply :: s.replicas.replies } }, [])
    else none
  | .originalReceivesLeader m =>
    if m ∈ s.replicas.announcements ∧ D.replicas.url m.receiver = D.primaryUrl then
      some ({
          original := (s.original.leader m.term m.primaryUrl).1
          replicas := { s.replicas with
            announcements := s.replicas.announcements.erase m } }, [])
    else none

def boot : DeploymentState N where
  replicas := .boot D.replicas (fun _ => .replica) (fun _ => some D.primaryUrl) fun _ => []
  original := {
    role := .primary
    primaryUrl := none
    replicaUrls := D.replicaUrls
    election := .new D.primaryId }

end Deployment

/-- No node is promoted by hand. -/
def NoManual (s : DeploymentState N) : DeploymentAction N → Prop
  | .replicas a => ByReplicas s.replicas a
  | _ => True

/-- Besides, no request is given up, so that all that is sent is delivered. -/
def AllDelivered (s : DeploymentState N) : DeploymentAction N → Prop
  | .replicas (.giveUp _ _) => False
  | a => NoManual s a

/-- Nothing that the election code sends is on its way, and no campaign is under way. -/
def NoneInFlight (s : DeploymentState N) : Prop :=
  s.replicas.requests = [] ∧ s.replicas.replies = [] ∧ s.replicas.campaigns = [] ∧
    s.replicas.announcements = []

instance (s : DeploymentState N) : ∀ a, Decidable (NoManual s a)
  | .replicas a => inferInstanceAs (Decidable (ByReplicas s.replicas a))
  | .originalReceivesRequest _ | .originalReceivesLeader _ => instDecidableTrue

instance (s : DeploymentState N) : ∀ a, Decidable (AllDelivered s a)
  | .replicas (.giveUp _ _) => instDecidableFalse
  | .replicas (.campaignForPrimary i) =>
    inferInstanceAs (Decidable (ByReplicas s.replicas (.campaignForPrimary i)))
  | .replicas (.runElection _) | .replicas (.promote _ _) => instDecidableFalse
  | .replicas (.receiveRequest _) | .replicas (.receiveReply _) | .replicas (.conclude _)
  | .replicas (.receiveLeader _) | .originalReceivesRequest _ | .originalReceivesLeader _ =>
    instDecidableTrue

instance (s : DeploymentState N) : Decidable (NoneInFlight s) :=
  inferInstanceAs (Decidable (_ ∧ _ ∧ _ ∧ _))

/-- Three replicas, each with the other two as its peers, and the original primary. -/
def documented : Deployment (Fin 3) where
  replicas := threeNodes
  selfUrl_ne_nil := by decide
  primaryUrl := js "http://p"
  primaryUrl_ne := by decide
  primaryId := js "http://p"
  replicaUrls := [js "http://a", js "http://b", js "http://c"]

end InkCache
