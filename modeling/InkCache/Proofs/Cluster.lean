import InkCache.Cluster
import InkCache.Proofs.Election

/-!
# What a step of the cluster does

`NodeStep` lists what happens to the leadership of one node, and what the log then says;
`ClusterStep` lists what happens to the whole cluster, messages and campaigns included. Every step
is one of these, and moves ballots only forward.
-/

namespace InkCache

open Lib

variable {N : Type} {C : ClusterConfig N} {log es : List (ClusterEvent N)} {i j v : N} {t : ℤ}
  {a : ClusterAction N}

/-! ## What a step does to one node -/

/-- Of the nodes, a step changes the leadership of one at most. -/
inductive NodeStep (C : ClusterConfig N) (a : ClusterAction N) (i : N) (n : Leadership) :
    Leadership → List (ClusterEvent N) → Prop
  | idle : NodeStep C a i n n []
  | stand (ha : a = .campaignForPrimary i ∨ a = .runElection i) :
      NodeStep C a i n
        { n with election := (n.election.startElection (· + 1)).1 }
        [.started i (n.election.currentTerm + 1)]
  | request {t : ℤ} {c : JsString} {l : Leadership} {b : Bool} (hl : VoteRouteStep t c n l b) :
      NodeStep C a i n l (if b then [.granted i t c] else [])
  | concluded (t : ℤ) (won : Bool) : NodeStep C a i n n [.concluded i t won]
  | promoted (c : Campaign N) (ha : a = .conclude c) (hi : c.node = i) (hwon : c.won = true)
      (urls : List JsString) :
      NodeStep C a i n { n with role := .primary, primaryUrl := none, replicaUrls := urls }
        [.concluded i c.term true, .promoted i c.term]
  | leader {t : ℤ} {url : JsString} {l : Leadership} {b : Bool} (hl : LeaderRouteStep t url n l b) :
      NodeStep C a i n l (if b then [.adopted i t url] else [])
  | manual (urls : List JsString) (ha : a = .promote i urls) :
      NodeStep C a i n (n.promoteToPrimary urls).1 []

theorem promoteToPrimary_election (n : Leadership) (urls : List JsString) :
    (n.promoteToPrimary urls).1.election = n.election := by
  unfold Leadership.promoteToPrimary
  split_ifs <;> rfl

/-- A vote cast: a grant, or a candidate's own. -/
def Voted (C : ClusterConfig N) (log : List (ClusterEvent N)) (v : N) (t : ℤ) (c : JsString) :
    Prop :=
  .granted v t c ∈ log ∨ (.started v t ∈ log ∧ c = C.candidateId v)

theorem voted_append {c : JsString} :
    Voted C (log ++ es) v t c ↔ Voted C log v t c ∨ Voted C es v t c := by
  unfold Voted
  simp only [List.mem_append]
  tauto

/-- No step takes a vote back. -/
theorem NodeStep.advances {n l : Leadership} (h : NodeStep C a i n l es) :
    n.election.ballot.Advances l.election.ballot := by
  cases h with
  | idle | concluded | promoted => exact .refl _
  | stand => exact startElection_advances n.election
  | request hl =>
    cases hl with
    | refused => exact .refl _
    | granted hc hle hfree =>
      rcases hle.lt_or_eq with hlt | heq
      · exact .inl hlt
      · refine .inr ⟨heq, ?_⟩
        rcases hfree heq with hv | hv
        · exact .inl hv
        · exact .inr hv.symm
  | leader hl =>
    cases hl with
    | refused => exact .refl _
    | adopted => exact observeTerm_advances _ _ n.election
  | manual =>
    rw [promoteToPrimary_election]
    exact .refl _

/-- A vote a step casts is the one its voter then holds. -/
theorem NodeStep.voted {n l : Leadership} (h : NodeStep C a i n l es)
    (hself : n.election.selfId = C.candidateId i) {c : JsString} (hv : Voted C es v t c) :
    v = i ∧ l.election.ballot = ⟨t, some c⟩ := by
  cases h with
  | idle | concluded | promoted | manual => simp [Voted] at hv
  | stand =>
    simp only [Voted, List.mem_singleton, reduceCtorEq, false_or, ClusterEvent.started.injEq] at hv
    obtain ⟨⟨rfl, rfl⟩, rfl⟩ := hv
    simp [startElection_spec, ElectionState.ballot, hself]
  | request hl =>
    cases hl with
    | refused => simp [Voted] at hv
    | granted =>
      simp only [Voted, if_true, List.mem_singleton, ClusterEvent.granted.injEq, reduceCtorEq,
        false_and, or_false] at hv
      obtain ⟨rfl, rfl, rfl⟩ := hv
      exact ⟨rfl, rfl⟩
  | leader hl => cases hl <;> simp [Voted] at hv

theorem NodeStep.selfId {n l : Leadership} (h : NodeStep C a i n l es) :
    l.election.selfId = n.election.selfId := by
  cases h with
  | idle | concluded | promoted | stand => rfl
  | request hl => cases hl <;> rfl
  | leader hl =>
    cases hl with
    | refused => rfl
    | adopted =>
      unfold ElectionState.observeTerm
      split_ifs <;> rfl
  | manual => rw [promoteToPrimary_election]

/-! ## What a step does to the cluster -/

variable [DecidableEq N] {s s' : ClusterState N}

namespace ClusterState

def leadership (s : ClusterState N) (i : N) : Leadership := (s.nodes i).leadership

def ballot (s : ClusterState N) (i : N) : Ballot ℤ JsString := (s.leadership i).election.ballot

@[simp] theorem leadership_setLeadership (l : Leadership) :
    (s.setLeadership i l).leadership = Function.update s.leadership i l := by
  funext j
  by_cases h : j = i
  · subst h
    simp [leadership, setLeadership, setNode]
  · simp [leadership, setLeadership, setNode, h]

@[simp] theorem leadership_setInFlight (b : Bool) :
    (s.setInFlight i b).leadership = s.leadership := by
  funext j
  by_cases h : j = i
  · subst h
    simp [leadership, setInFlight, setNode]
  · simp [leadership, setInFlight, setNode, h]

theorem setInFlight_self : s.setInFlight i (s.nodes i).electionInFlight = s := by
  cases s
  simp [setInFlight, setNode]

end ClusterState

/-- What the campaign of a winner sends its peers. -/
def announcementsOf (C : ClusterConfig N) (c : Campaign N) : List (Announcement N) :=
  (C.peers c.node).map fun j =>
    { sender := c.node, receiver := j, term := c.term, primaryUrl := C.candidateId c.node }

/-- What a step leaves and reports, for each thing an action can come to. -/
inductive ClusterStep (C : ClusterConfig N) (s : ClusterState N) :
    ClusterAction N → ClusterState N → List (ClusterEvent N) → Prop
  | stand (i : N) (caller : Caller) (b : Bool) {a : ClusterAction N}
      (ha : a = .campaignForPrimary i ∨ a = .runElection i) :
      ClusterStep C s a ((s.setInFlight i b).stand C i caller).1
        [.started i ((s.leadership i).election.currentTerm + 1)]
  | request (m : VoteRequest N) (hm : m ∈ s.requests) (r : VoteReply N) {l : Leadership} {b : Bool}
      (hr : r.sender = m.receiver ∧ r.receiver = m.sender ∧ r.requested = m.term)
      (hb : r.response.grants = b)
      (hl : VoteRouteStep m.term m.candidateId (s.leadership m.receiver) l b) :
      ClusterStep C s (.receiveRequest m)
        { s.setLeadership m.receiver l with
          requests := s.requests.erase m, replies := r :: s.replies }
        (if b then [.granted m.receiver m.term m.candidateId] else [])
  | reply (m : VoteReply N) (hm : m ∈ s.replies) :
      ClusterStep C s (.receiveReply m)
        { s with
          replies := s.replies.erase m
          campaigns := s.campaigns.map fun c =>
            if c.node = m.receiver ∧ c.term = m.requested then
              c.resolve m.sender m.response.grants
            else c } []
  | giveUp (c : Campaign N) (peer : N) (hc : c ∈ s.campaigns) :
      ClusterStep C s (.giveUp c peer)
        { s with campaigns := c.resolve peer false :: s.campaigns.erase c } []
  | concluded (c : Campaign N) (hc : c ∈ s.campaigns) (b : Bool) :
      ClusterStep C s (.conclude c) { s.setInFlight c.node b with campaigns := s.campaigns.erase c }
        [.concluded c.node c.term c.won]
  | promoted (c : Campaign N) (hc : c ∈ s.campaigns) (hwon : c.won = true)
      (urls : List JsString) :
      ClusterStep C s (.conclude c)
        { (s.setInFlight c.node false).setLeadership c.node
            { s.leadership c.node with
              role := .primary
              primaryUrl := none
              replicaUrls := urls } with
          campaigns := s.campaigns.erase c
          announcements := s.announcements ++ announcementsOf C c }
        [.concluded c.node c.term true, .promoted c.node c.term]
  | leader (m : Announcement N) (hm : m ∈ s.announcements) {l : Leadership} {b : Bool}
      (hl : LeaderRouteStep m.term m.primaryUrl (s.leadership m.receiver) l b) :
      ClusterStep C s (.receiveLeader m)
        { s.setLeadership m.receiver l with announcements := s.announcements.erase m }
        (if b then [.adopted m.receiver m.term m.primaryUrl] else [])
  | manual (i : N) (urls : List JsString) :
      ClusterStep C s (.promote i urls)
        (s.setLeadership i ((s.leadership i).promoteToPrimary urls).1) []

theorem stand_events (s : ClusterState N) (i : N) (b : Bool) (caller : Caller) :
    ((s.setInFlight i b).stand C i caller).2 =
      [.started i ((s.leadership i).election.currentTerm + 1)] := by
  have hl : ((s.setInFlight i b).nodes i).leadership = s.leadership i :=
    congrFun (ClusterState.leadership_setInFlight b) i
  simp only [ClusterState.stand, hl, startElection_spec]

/-- A replica that won is promoted, and announces it. -/
theorem acted_of_won {c : Campaign N} (hwon : c.won = true)
    (hrole : ¬ (s.leadership c.node).role = .primary) : s.acted C c =
      ({ (s.setInFlight c.node false).setLeadership c.node
          { s.leadership c.node with
            role := .primary
            primaryUrl := none
            replicaUrls := (C.peers c.node).map C.url } with
        announcements := s.announcements ++ announcementsOf C c }, [.promoted c.node c.term]) := by
  have hl : ((s.setInFlight c.node false).nodes c.node).leadership = s.leadership c.node :=
    congrFun (ClusterState.leadership_setInFlight false) c.node
  simp only [ClusterState.acted, hl, Leadership.promoteToPrimary, if_neg hrole, hwon, Bool.and_true,
    if_true]
  rfl

theorem clusterStep_conclude {c : Campaign N} (hc : c ∈ s.campaigns) :
    ClusterStep C s (.conclude c) (({ s with campaigns := s.campaigns.erase c }).acted C c).1
      (.concluded c.node c.term c.won ::
        (({ s with campaigns := s.campaigns.erase c }).acted C c).2) := by
  set s₁ : ClusterState N := { s with campaigns := s.campaigns.erase c } with hs₁
  by_cases hact : c.won = true ∧ ¬ (s.leadership c.node).role = .primary
  · rw [acted_of_won (s := s₁) hact.1 hact.2, hact.1]
    exact .promoted c hc hact.1 _
  · have hl : ((s₁.setInFlight c.node false).nodes c.node).leadership = s.leadership c.node :=
      congrFun (ClusterState.leadership_setInFlight false) c.node
    simp only [ClusterState.acted, hl, Leadership.promoteToPrimary]
    have hno : (c.won && (if (s.leadership c.node).role = .primary
        then (s.leadership c.node, false)
        else ({ s.leadership c.node with
          role := .primary, primaryUrl := none,
          replicaUrls := (C.peers c.node).map C.url }, true)).2) = false := by
      rw [not_and_not_right] at hact
      rcases hw : c.won
      · rfl
      · rw [if_pos (hact hw)]
        rfl
    rw [hno]
    simp only [Bool.false_eq_true, if_false]
    exact .concluded c hc false

theorem clusterStep {a : ClusterAction N} (h : s.step C a = some (s', es)) :
    ClusterStep C s a s' es := by
  cases a with
  | campaignForPrimary i =>
    simp only [ClusterState.step] at h
    split_ifs at h
    rw [Option.some.injEq, Prod.ext_iff, stand_events] at h
    obtain ⟨rfl, rfl⟩ := h
    exact .stand i .campaignForPrimary true (.inl rfl)
  | runElection i =>
    simp only [ClusterState.step] at h
    rw [← s.setInFlight_self (i := i), Option.some.injEq, Prod.ext_iff, stand_events] at h
    obtain ⟨rfl, rfl⟩ := h
    exact .stand i .other (s.nodes i).electionInFlight (.inr rfl)
  | receiveRequest m =>
    simp only [ClusterState.step] at h
    by_cases hm : m ∈ s.requests
    swap
    · simp [hm] at h
    simp only [if_pos hm, Option.some.injEq, Prod.mk.injEq] at h
    obtain ⟨rfl, rfl⟩ := h
    have hl := voteRouteStep m.term m.candidateId (s.leadership m.receiver)
    exact .request m hm ⟨m.receiver, m.sender, m.term, _⟩ ⟨rfl, rfl, rfl⟩ rfl hl
  | receiveReply m =>
    simp only [ClusterState.step] at h
    split_ifs at h with hm
    simp only [Option.some.injEq, Prod.mk.injEq] at h
    obtain ⟨rfl, rfl⟩ := h
    exact .reply m hm
  | giveUp c peer =>
    simp only [ClusterState.step] at h
    split_ifs at h with hc
    simp only [Option.some.injEq, Prod.mk.injEq] at h
    obtain ⟨rfl, rfl⟩ := h
    exact .giveUp c peer hc
  | conclude c =>
    simp only [ClusterState.step] at h
    split_ifs at h with hc
    rcases hcaller : c.caller <;> rw [hcaller] at h <;>
      simp only [Option.some.injEq, Prod.mk.injEq] at h <;> obtain ⟨rfl, rfl⟩ := h
    · exact clusterStep_conclude hc.1
    · have hst := ClusterStep.concluded (C := C) c hc.1 (s.nodes c.node).electionInFlight
      rwa [s.setInFlight_self] at hst
  | receiveLeader m =>
    simp only [ClusterState.step] at h
    by_cases hm : m ∈ s.announcements
    swap
    · simp [hm] at h
    simp only [if_pos hm, Option.some.injEq, Prod.mk.injEq] at h
    obtain ⟨rfl, rfl⟩ := h
    exact .leader m hm (leaderRouteStep m.term m.primaryUrl (s.leadership m.receiver))
  | promote i urls =>
    simp only [ClusterState.step, Option.some.injEq, Prod.mk.injEq] at h
    obtain ⟨rfl, rfl⟩ := h
    exact .manual i urls

theorem leadership_stand (b : Bool) (caller : Caller) :
    ((s.setInFlight i b).stand C i caller).1.leadership =
      Function.update s.leadership i { s.leadership i with
        election := ((s.leadership i).election.startElection (· + 1)).1 } := by
  have hl : ((s.setInFlight i b).nodes i).leadership = s.leadership i :=
    congrFun (ClusterState.leadership_setInFlight b) i
  refine (ClusterState.leadership_setLeadership _).trans ?_
  rw [ClusterState.leadership_setInFlight, hl]

theorem ClusterStep.node (h : ClusterStep C s a s' es) : ∃ i l,
    s'.leadership = Function.update s.leadership i l ∧ NodeStep C a i (s.leadership i) l es := by
  cases h with
  | stand i caller b ha => exact ⟨i, _, leadership_stand b caller, .stand ha⟩
  | request m hm r hr hb hl =>
    exact ⟨m.receiver, _, ClusterState.leadership_setLeadership _, .request hl⟩
  | reply m => exact ⟨m.receiver, _, (Function.update_eq_self _ _).symm, .idle⟩
  | giveUp c peer => exact ⟨peer, _, (Function.update_eq_self _ _).symm, .idle⟩
  | concluded c hc b =>
    refine ⟨c.node, _, ?_, .concluded c.term c.won⟩
    rw [Function.update_eq_self]
    exact ClusterState.leadership_setInFlight b
  | promoted c hc hwon urls =>
    refine ⟨c.node, _, (ClusterState.leadership_setLeadership _).trans ?_,
      .promoted c rfl rfl hwon urls⟩
    rw [ClusterState.leadership_setInFlight]
  | leader m hm hl => exact ⟨m.receiver, _, ClusterState.leadership_setLeadership _, .leader hl⟩
  | manual i urls => exact ⟨i, _, ClusterState.leadership_setLeadership _, .manual urls rfl⟩

end InkCache
