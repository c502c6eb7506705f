import InkCache.Js

/-!
# Elections (`src/core/election.ts`, and the election routes of `src/network/app.ts`)

Terms are integers; what JavaScript adds when a node stands for election is a parameter of
`startElection`. `Leadership` is the part of a node's state that elections change.
-/

namespace InkCache

structure VoteResult where
  voteGranted : Bool
  term : ℤ
  deriving DecidableEq

structure ElectionState where
  currentTerm : ℤ
  votedFor : Option JsString
  selfId : JsString
  deriving DecidableEq

namespace ElectionState

def new (selfId : JsString) : ElectionState where
  currentTerm := 0
  votedFor := none
  selfId := selfId

def observeTerm (term : ℤ) (candidateId : Option JsString) (s : ElectionState) : ElectionState :=
  if s.currentTerm < term then { s with currentTerm := term, votedFor := candidateId } else s

/-- Stands for election in the next term, as `addOne` computes it, and votes for itself. -/
def startElection (addOne : ℤ → ℤ) (s : ElectionState) : ElectionState × ℤ :=
  let s := { s with currentTerm := addOne s.currentTerm, votedFor := some s.selfId }
  (s, s.currentTerm)

def requestVote (term : ℤ) (candidateId : JsString) (s : ElectionState) :
    ElectionState × VoteResult :=
  if term < s.currentTerm then (s, { voteGranted := false, term := s.currentTerm })
  else
    let s := if s.currentTerm < term then { s with currentTerm := term, votedFor := none } else s
    if s.votedFor = none ∨ s.votedFor = some candidateId then
      ({ s with votedFor := some candidateId }, { voteGranted := true, term := s.currentTerm })
    else (s, { voteGranted := false, term := s.currentTerm })

end ElectionState

/-- More than half: `votes > totalNodes / 2`, where the half of an odd number is not rounded. -/
def hasMajority (votes totalNodes : ℕ) : Bool := decide (totalNodes < 2 * votes)

/-! ## The routes -/

inductive Role where
  | primary
  | replica
  deriving DecidableEq

/-- `ROLE`, `PRIMARY_URL`, `REPLICA_URLS` and `electionState`. -/
structure Leadership where
  role : Role
  primaryUrl : Option JsString
  replicaUrls : List JsString
  election : ElectionState
  deriving DecidableEq

inductive VoteResponse where
  | badRequest (error : JsString)
  | voted (result : VoteResult)
  deriving DecidableEq

/-- What `requestVoteFrom` makes of the answer: anything but a granted vote is none. -/
def VoteResponse.grants : VoteResponse → Bool
  | badRequest _ => false
  | voted result => result.voteGranted

inductive LeaderResponse where
  | badRequest (error : JsString)
  | staleTerm (term : ℤ)
  | adopted (term : ℤ)
  deriving DecidableEq

/-- Whether the `onLeaderElected` hook is called. -/
def LeaderResponse.isAdopted : LeaderResponse → Bool
  | adopted _ => true
  | _ => false

namespace Leadership

/-- Whether the node was promoted: it is not if it is a primary already. -/
def promoteToPrimary (replicaUrls : List JsString) (n : Leadership) : Leadership × Bool :=
  if n.role = .primary then (n, false)
  else ({ n with role := .primary, primaryUrl := none, replicaUrls }, true)

/-- `POST /election/request-vote`, with the body's types checked. -/
def requestVote (term : ℤ) (candidateId : JsString) (n : Leadership) : Leadership × VoteResponse :=
  if term < 0 then (n, .badRequest (js "term must be a non-negative integer"))
  else if candidateId.length = 0 then
    (n, .badRequest (js "candidateId must be a non-empty string"))
  else
    let previousTerm := n.election.currentTerm
    let r := n.election.requestVote term candidateId
    let n := { n with election := r.1 }
    let n := if r.2.voteGranted = true ∧ previousTerm < term ∧ n.role = .primary then
      { n with role := .replica } else n
    (n, .voted r.2)

/-- `POST /election/leader`, with the body's types checked. -/
def leader (term : ℤ) (primaryUrl : JsString) (n : Leadership) : Leadership × LeaderResponse :=
  if term < 0 then (n, .badRequest (js "term must be a non-negative integer"))
  else if primaryUrl.length = 0 then
    (n, .badRequest (js "primaryUrl must be a non-empty string"))
  else if term < n.election.currentTerm then (n, .staleTerm n.election.currentTerm)
  else
    let election := n.election.observeTerm term (some primaryUrl)
    ({ role := .replica, primaryUrl := some primaryUrl, replicaUrls := [], election },
      .adopted election.currentTerm)

end Leadership

/-! ### Announcements -/

/-- The body of a `POST /election/leader`. -/
@[ext]
structure LeaderAnnouncement where
  term : ℤ
  primaryUrl : JsString
  deriving DecidableEq

/-- The body passes the checks of the route. -/
def LeaderAnnouncement.WellFormed (a : LeaderAnnouncement) : Prop := 0 ≤ a.term ∧ a.primaryUrl ≠ []

instance : DecidablePred LeaderAnnouncement.WellFormed := fun _ => instDecidableAnd

namespace Leadership

/-- The node after an announcement. -/
def receive (n : Leadership) (a : LeaderAnnouncement) : Leadership :=
  (n.leader a.term a.primaryUrl).1

/-- The node after announcements that come one after another. -/
def deliver (n : Leadership) (announcements : List LeaderAnnouncement) : Leadership :=
  announcements.foldl receive n

/-- Those of the announcements that the node adopts, in order. -/
def adoptions (n : Leadership) : List LeaderAnnouncement → List LeaderAnnouncement
  | [] => []
  | a :: announcements =>
    if (n.leader a.term a.primaryUrl).2.isAdopted then a :: (n.receive a).adoptions announcements
    else (n.receive a).adoptions announcements

end Leadership

end InkCache
