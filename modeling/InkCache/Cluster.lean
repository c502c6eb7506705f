import InkCache.Election
import InkCache.Lib.Run

/-!
# A cluster of nodes that elect a primary

Each node runs `campaignForPrimary` of `src/network/server.ts` over `runElection` and
`announceLeader` of `src/network/election-client.ts`. A call of `runElection` is a `Campaign`: a
slot for every peer, open until the peer's answer arrives or the request fails, and concluded once
no slot is open. A message is delivered at any later time or never; a request can still be
answered after its campaign has given it up.
-/

namespace InkCache

open Lib

variable {N : Type} [DecidableEq N]

/-- Who the nodes are; the peers of a node are all the others. -/
structure ClusterConfig (N : Type) where
  candidateId : N → JsString
  candidateId_injective : Function.Injective candidateId
  url : N → JsString
  peers : N → List N
  peers_nodup : ∀ i, (peers i).Nodup
  mem_peers : ∀ i j, j ∈ peers i ↔ j ≠ i

/-- Who called `runElection`: `campaignForPrimary` acts on the result, another caller only learns
it. -/
inductive Caller where
  | campaignForPrimary
  | other
  deriving DecidableEq

structure Campaign (N : Type) where
  node : N
  term : ℤ
  caller : Caller
  slots : List (N × Option Bool)
  deriving DecidableEq

structure VoteRequest (N : Type) where
  sender : N
  receiver : N
  term : ℤ
  candidateId : JsString
  deriving DecidableEq

structure VoteReply (N : Type) where
  sender : N
  receiver : N
  /-- The term asked for, which identifies the campaign. -/
  requested : ℤ
  response : VoteResponse
  deriving DecidableEq

structure Announcement (N : Type) where
  sender : N
  receiver : N
  term : ℤ
  primaryUrl : JsString
  deriving DecidableEq

instance lawfulBEq_voteRequest {N : Type} [DecidableEq N] : LawfulBEq (VoteRequest N) :=
  inferInstance

instance lawfulBEq_announcement {N : Type} [DecidableEq N] : LawfulBEq (Announcement N) :=
  inferInstance

structure ClusterNode where
  leadership : Leadership
  electionInFlight : Bool
  deriving DecidableEq

structure ClusterState (N : Type) where
  nodes : N → ClusterNode
  campaigns : List (Campaign N)
  requests : List (VoteRequest N)
  replies : List (VoteReply N)
  announcements : List (Announcement N)

inductive ClusterEvent (N : Type) where
  /-- A node stood for election in the term, and voted for itself. -/
  | started (node : N) (term : ℤ)
  | granted (voter : N) (term : ℤ) (candidateId : JsString)
  | concluded (node : N) (term : ℤ) (won : Bool)
  | promoted (node : N) (term : ℤ)
  | adopted (node : N) (term : ℤ) (primaryUrl : JsString)
  deriving DecidableEq

inductive ClusterAction (N : Type) where
  | campaignForPrimary (i : N)
  | runElection (i : N)
  | receiveRequest (m : VoteRequest N)
  | receiveReply (m : VoteReply N)
  /-- The request of a campaign to a peer fails or times out. -/
  | giveUp (c : Campaign N) (peer : N)
  | conclude (c : Campaign N)
  | receiveLeader (m : Announcement N)
  /-- `POST /promote` -/
  | promote (i : N) (replicaUrls : List JsString)

/-! ## Campaigns -/

namespace Campaign

/-- Fills the open slot of the peer. -/
def resolve (peer : N) (grant : Bool) (c : Campaign N) : Campaign N :=
  { c with slots := c.slots.map fun x =>
      if x.1 = peer ∧ x.2 = none then (x.1, some grant) else x }

def resolved (c : Campaign N) : Bool := c.slots.all fun x => x.2.isSome

/-- The candidate's own vote, and the grants. -/
def votes (c : Campaign N) : ℕ := 1 + c.slots.countP fun x => x.2 = some true

def totalNodes (c : Campaign N) : ℕ := c.slots.length + 1

def won (c : Campaign N) : Bool := hasMajority c.votes c.totalNodes

end Campaign

/-! ## Steps -/

namespace ClusterState

variable (C : ClusterConfig N)

def setNode (i : N) (n : ClusterNode) (s : ClusterState N) : ClusterState N :=
  { s with nodes := Function.update s.nodes i n }

def setLeadership (i : N) (l : Leadership) (s : ClusterState N) : ClusterState N :=
  s.setNode i { s.nodes i with leadership := l }

def setInFlight (i : N) (b : Bool) (s : ClusterState N) : ClusterState N :=
  s.setNode i { s.nodes i with electionInFlight := b }

/-- `runElection` up to its first `await`. -/
def stand (i : N) (caller : Caller) (s : ClusterState N) : ClusterState N × List (ClusterEvent N) :=
  let l := (s.nodes i).leadership
  let r := l.election.startElection (· + 1)
  let s := s.setLeadership i { l with election := r.1 }
  let c : Campaign N := { node := i, term := r.2, caller, slots := (C.peers i).map (·, none) }
  ({ s with
      campaigns := c :: s.campaigns
      requests := s.requests ++ (C.peers i).map fun j =>
        { sender := i, receiver := j, term := r.2, candidateId := C.candidateId i } },
    [.started i r.2])

/-- The rest of `campaignForPrimary` once its election has concluded. -/
def acted (c : Campaign N) (s : ClusterState N) : ClusterState N × List (ClusterEvent N) :=
  let s := s.setInFlight c.node false
  let r := (s.nodes c.node).leadership.promoteToPrimary ((C.peers c.node).map C.url)
  if c.won && r.2 then
    let s := s.setLeadership c.node r.1
    ({ s with announcements := s.announcements ++ (C.peers c.node).map fun j =>
        { sender := c.node, receiver := j, term := c.term, primaryUrl := C.candidateId c.node } },
      [.promoted c.node c.term])
  else (s, [])

def step (s : ClusterState N) : ClusterAction N → Option (ClusterState N × List (ClusterEvent N))
  | .campaignForPrimary i =>
    if (s.nodes i).electionInFlight then none
    else some ((s.setInFlight i true).stand C i .campaignForPrimary)
  | .runElection i => some (s.stand C i .other)
  | .receiveRequest m =>
    if m ∈ s.requests then
      let r := (s.nodes m.receiver).leadership.requestVote m.term m.candidateId
      let s := s.setLeadership m.receiver r.1
      let reply : VoteReply N :=
        { sender := m.receiver, receiver := m.sender, requested := m.term, response := r.2 }
      some ({ s with requests := s.requests.erase m, replies := reply :: s.replies },
        if r.2.grants then [.granted m.receiver m.term m.candidateId] else [])
    else none
  | .receiveReply m =>
    if m ∈ s.replies then
      some ({ s with
          replies := s.replies.erase m
          campaigns := s.campaigns.map fun c =>
            if c.node = m.receiver ∧ c.term = m.requested then
              c.resolve m.sender m.response.grants
            else c }, [])
    else none
  | .giveUp c peer =>
    if c ∈ s.campaigns then
      some ({ s with campaigns := c.resolve peer false :: s.campaigns.erase c }, [])
    else none
  | .conclude c =>
    if c ∈ s.campaigns ∧ c.resolved then
      let s := { s with campaigns := s.campaigns.erase c }
      match c.caller with
      | .other => some (s, [.concluded c.node c.term c.won])
      | .campaignForPrimary =>
        let r := s.acted C c
        some (r.1, .concluded c.node c.term c.won :: r.2)
    else none
  | .receiveLeader m =>
    if m ∈ s.announcements then
      let r := (s.nodes m.receiver).leadership.leader m.term m.primaryUrl
      let s := s.setLeadership m.receiver r.1
      some ({ s with announcements := s.announcements.erase m },
        if r.2.isAdopted then [.adopted m.receiver m.term m.primaryUrl] else [])
    else none
  | .promote i replicaUrls =>
    some (s.setLeadership i ((s.nodes i).leadership.promoteToPrimary replicaUrls).1, [])

end ClusterState

/-- The cluster after every node has started, with the roles it was configured with. -/
def ClusterState.boot (C : ClusterConfig N) (role : N → Role) (primaryUrl : N → Option JsString)
    (replicaUrls : N → List JsString) : ClusterState N where
  nodes i := {
    leadership := {
      role := role i
      primaryUrl := primaryUrl i
      replicaUrls := replicaUrls i
      election := .new (C.candidateId i) }
    electionInFlight := false }
  campaigns := []
  requests := []
  replies := []
  announcements := []

/-- The runs of the cluster whose actions are all allowed by `P`. -/
abbrev ClusterRun (C : ClusterConfig N) (P : ClusterState N → ClusterAction N → Prop)
    (s₀ : ClusterState N) :=
  Run (ClusterState.step C) P s₀

/-- Campaigns are started by replicas, and no node is promoted by hand. -/
def ByReplicas (s : ClusterState N) : ClusterAction N → Prop
  | .campaignForPrimary i => (s.nodes i).leadership.role = .replica
  | .runElection _ => False
  | .promote _ _ => False
  | _ => True

instance (s : ClusterState N) : ∀ a, Decidable (ByReplicas s a)
  | .campaignForPrimary i => inferInstanceAs (Decidable ((s.nodes i).leadership.role = .replica))
  | .runElection _ | .promote _ _ => instDecidableFalse
  | .receiveRequest _ | .receiveReply _ | .giveUp _ _ | .conclude _ | .receiveLeader _ =>
    instDecidableTrue

/-- Besides, a campaign concludes with a majority only while its node is still in its term. -/
def InTerm (s : ClusterState N) : ClusterAction N → Prop
  | .conclude c => c.won = true → (s.nodes c.node).leadership.election.currentTerm = c.term
  | a => ByReplicas s a

instance (s : ClusterState N) : ∀ a, Decidable (InTerm s a)
  | .conclude c => inferInstanceAs (Decidable (c.won = true →
      (s.nodes c.node).leadership.election.currentTerm = c.term))
  | .campaignForPrimary i => inferInstanceAs (Decidable (ByReplicas s (.campaignForPrimary i)))
  | .runElection _ | .promote _ _ => instDecidableFalse
  | .receiveRequest _ | .receiveReply _ | .giveUp _ _ | .receiveLeader _ => instDecidableTrue

/-- Every request has been answered, every campaign concluded, every announcement delivered. -/
def Quiescent (s : ClusterState N) : Prop :=
  s.requests = [] ∧ s.campaigns = [] ∧ s.announcements = []

instance (s : ClusterState N) : Decidable (Quiescent s) :=
  inferInstanceAs (Decidable (_ ∧ _ ∧ _))

/-- Three nodes, each knowing the other two. -/
def threeNodes : ClusterConfig (Fin 3) where
  candidateId := ![js "http://a", js "http://b", js "http://c"]
  candidateId_injective := by decide
  url := ![js "http://a", js "http://b", js "http://c"]
  peers i := (List.finRange 3).filter (· ≠ i)
  peers_nodup i := (List.nodup_finRange 3).filter _
  mem_peers i j := by simp

end InkCache
