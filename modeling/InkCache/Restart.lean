import InkCache.Cluster

/-!
# Nodes that restart

A restarted node begins as it was configured, in term zero and without a vote: `electionState` is
not persisted. Its campaigns are gone with it. A vote request it had sent may still arrive, but
nobody waits for the answer. `cast` and `forgotten` are what the program does not keep: the votes a
node has cast since it last started, and those it cast before.
-/

namespace InkCache

open Lib

variable {N : Type}

structure RestartState (N : Type) where
  cluster : ClusterState N
  /-- The requests of campaigns that are gone. -/
  orphans : List (VoteRequest N)
  cast : N → List (ℤ × JsString)
  forgotten : N → List (ℤ × JsString)

inductive RestartAction (N : Type) where
  | cluster (a : ClusterAction N)
  | receiveOrphan (m : VoteRequest N)
  | restart (i : N)

/-- What the nodes read from their environment when they start. -/
structure Environment (N : Type) where
  config : ClusterConfig N
  role : N → Role
  primaryUrl : N → Option JsString
  replicaUrls : N → List JsString

def Environment.boot (E : Environment N) : ClusterState N :=
  .boot E.config E.role E.primaryUrl E.replicaUrls

variable [DecidableEq N]

/-- The votes that the events say the node cast. -/
def votesOf (C : ClusterConfig N) (v : N) : List (ClusterEvent N) → List (ℤ × JsString) :=
  List.filterMap fun
    | .started i t => if i = v then some (t, C.candidateId i) else none
    | .granted i t c => if i = v then some (t, c) else none
    | _ => none

namespace RestartState

variable (E : Environment N)

def boot : RestartState N where
  cluster := E.boot
  orphans := []
  cast _ := []
  forgotten _ := []

/-- The state after the cluster has reported the events. -/
def record (cluster : ClusterState N) (es : List (ClusterEvent N)) (s : RestartState N) :
    RestartState N :=
  { s with cluster, cast := fun v => s.cast v ++ votesOf E.config v es }

def restart (i : N) (s : RestartState N) : RestartState N where
  cluster := { s.cluster.setNode i (E.boot.nodes i) with
    campaigns := s.cluster.campaigns.filter (·.node ≠ i)
    requests := s.cluster.requests.filter (·.sender ≠ i)
    replies := s.cluster.replies.filter (·.receiver ≠ i) }
  orphans := s.orphans ++ s.cluster.requests.filter (·.sender = i)
  cast := Function.update s.cast i []
  forgotten := Function.update s.forgotten i (s.forgotten i ++ s.cast i)

def step (s : RestartState N) : RestartAction N → Option (RestartState N × List (ClusterEvent N))
  | .cluster a => (s.cluster.step E.config a).map fun r => (s.record E r.1 r.2, r.2)
  | .receiveOrphan m =>
    if m ∈ s.orphans then
      let r := (s.cluster.nodes m.receiver).leadership.requestVote m.term m.candidateId
      let es := if r.2.grants then [.granted m.receiver m.term m.candidateId] else []
      some ({ s.record E (s.cluster.setLeadership m.receiver r.1) es with
          orphans := s.orphans.erase m }, es)
    else none
  | .restart i => some (s.restart E i, [])

end RestartState

/-- The node is free to vote for the candidate: the term is later than its own, or it is its own and
the node has voted for no other. -/
def Grantable (n : Leadership) (t : ℤ) (c : JsString) : Prop :=
  0 ≤ t ∧ c ≠ [] ∧ (n.election.currentTerm < t ∨
    n.election.currentTerm = t ∧ (n.election.votedFor = none ∨ n.election.votedFor = some c))

/-- The node has forgotten no vote of the term for another candidate. -/
def NoneForgotten (s : RestartState N) (v : N) (t : ℤ) (c : JsString) : Prop :=
  ∀ x ∈ s.forgotten v, x.1 = t → x.2 = c

/-- No node that is free to vote is asked to, and none stands, in a term whose vote it has forgotten
and gave to another. -/
def Remembers (C : ClusterConfig N) (s : RestartState N) : RestartAction N → Prop
  | .cluster (.receiveRequest m) | .receiveOrphan m =>
    Grantable (s.cluster.nodes m.receiver).leadership m.term m.candidateId →
      NoneForgotten s m.receiver m.term m.candidateId
  | .cluster (.campaignForPrimary i) | .cluster (.runElection i) =>
    NoneForgotten s i ((s.cluster.nodes i).leadership.election.currentTerm + 1) (C.candidateId i)
  | _ => True

instance (n : Leadership) (t : ℤ) (c : JsString) : Decidable (Grantable n t c) :=
  inferInstanceAs (Decidable (_ ∧ _ ∧ _))

instance (s : RestartState N) (v : N) (t : ℤ) (c : JsString) : Decidable (NoneForgotten s v t c) :=
  inferInstanceAs (Decidable (∀ x ∈ s.forgotten v, x.1 = t → x.2 = c))

instance (C : ClusterConfig N) (s : RestartState N) : ∀ a, Decidable (Remembers C s a)
  | .cluster (.receiveRequest m) | .receiveOrphan m => inferInstanceAs (Decidable
      (Grantable (s.cluster.nodes m.receiver).leadership m.term m.candidateId →
        NoneForgotten s m.receiver m.term m.candidateId))
  | .cluster (.campaignForPrimary i) | .cluster (.runElection i) => inferInstanceAs (Decidable
      (NoneForgotten s i ((s.cluster.nodes i).leadership.election.currentTerm + 1)
        (C.candidateId i)))
  | .cluster (.receiveReply _) | .cluster (.giveUp _ _) | .cluster (.conclude _)
  | .cluster (.receiveLeader _) | .cluster (.promote _ _) | .restart _ => instDecidableTrue

/-- Three replicas, each with the other two as its peers. -/
def threeReplicas : Environment (Fin 3) where
  config := threeNodes
  role _ := .replica
  primaryUrl _ := none
  replicaUrls _ := []

end InkCache
