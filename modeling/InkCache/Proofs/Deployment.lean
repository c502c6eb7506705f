import InkCache.Deployment
import InkCache.Proofs.Cluster

/-!
# The original primary hears of no election

No replica has the original primary among its peers, and elections are sent to peers only. So the
original primary stays one in every run (`original_primary`); and in every deployment any replica
can collect the votes of its peers (`Collecting`), win, and have its announcements delivered
(`Announcing`), after which nothing more is sent.
-/

namespace InkCache

open Lib

/-! ## A replica wins -/

section Election

variable {N : Type} {C : ClusterConfig N} {s s' : ClusterState N} {log : List (ClusterEvent N)}
  {granted rest : List N} {i j : N}

/-- The campaign of a replica in the first term, of whose peers some have granted their vote. -/
def firstCampaign (i : N) (granted rest : List N) : Campaign N where
  node := i
  term := 1
  caller := .campaignForPrimary
  slots := granted.map (·, some true) ++ rest.map (·, none)

def firstRequest (C : ClusterConfig N) (i j : N) : VoteRequest N where
  sender := i
  receiver := j
  term := 1
  candidateId := C.candidateId i

def firstAnnouncement (C : ClusterConfig N) (i j : N) : Announcement N where
  sender := i
  receiver := j
  term := 1
  primaryUrl := C.candidateId i

theorem won_firstCampaign (granted : List N) : (firstCampaign i granted []).won = true := by
  have hcount : (granted.map fun x => (x, some true)).countP (fun x => x.2 = some true) =
      granted.length := by
    rw [List.countP_map]
    exact List.countP_eq_length.2 fun x _ => by simp
  simp only [Campaign.won, hasMajority, Campaign.votes, Campaign.totalNodes, firstCampaign,
    List.map_nil, List.append_nil, List.length_map, decide_eq_true_eq]
  rw [hcount]
  omega

theorem resolved_firstCampaign (granted : List N) :
    (firstCampaign i granted []).resolved = true := by
  simp [firstCampaign, Campaign.resolved]

/-- Asked for the first time, a replica grants its vote. -/
theorem grants_firstRequest {l : Leadership} {c : JsString} (hc : c ≠ [])
    (h : l.election.currentTerm = 0) : (l.requestVote 1 c).2.grants = true := by
  have hroute := voteRouteStep 1 c l
  generalize (l.requestVote 1 c).1 = l', (l.requestVote 1 c).2.grants = b at hroute
  cases hroute with
  | refused hr =>
    rcases hr with hr | hr | hr
    · exact absurd hr hc
    · omega
    · omega
  | granted => rfl

/-- All has been answered but what is still to be asked of `rest`. -/
structure Collecting (C : ClusterConfig N) (i : N) (granted rest : List N) (s : ClusterState N) :
    Prop where
  peers : C.peers i = granted ++ rest
  campaigns : s.campaigns = [firstCampaign i granted rest]
  requests : s.requests = rest.map (firstRequest C i)
  replies : s.replies = []
  announcements : s.announcements = []
  role : (s.leadership i).role = .replica
  fresh : ∀ j ∈ rest, (s.leadership j).election.currentTerm = 0

/-- All has been delivered but the announcements to `rest`. -/
structure Announcing (C : ClusterConfig N) (i : N) (rest : List N) (s : ClusterState N) :
    Prop where
  others : i ∉ rest
  campaigns : s.campaigns = []
  requests : s.requests = []
  replies : s.replies = []
  announcements : s.announcements = rest.map (firstAnnouncement C i)
  role : (s.leadership i).role = .primary

variable [DecidableEq N]

theorem resolve_firstCampaign (hj : j ∉ rest) :
    (firstCampaign i granted (j :: rest)).resolve j true =
      firstCampaign i (granted ++ [j]) rest := by
  have hrest : ∀ x ∈ rest, (if x = j ∧ True then (x, some true) else (x, none)) = (x, none) :=
    fun x hx => by
      rw [if_neg]
      rintro ⟨rfl, -⟩
      exact hj hx
  simp only [Campaign.resolve, firstCampaign, List.map_append, List.map_cons, List.map_map,
    Function.comp_def, List.map_nil, List.append_assoc, List.singleton_append, reduceCtorEq,
    and_false, if_false]
  rw [List.map_congr_left hrest]
  simp

/-- Runs whose campaigns are started by replicas, and that give no request up. -/
def Delivered (s : ClusterState N) (a : ClusterAction N) : Prop :=
  ByReplicas s a ∧ ∀ c peer, a ≠ .giveUp c peer

variable {s₀ : ClusterState N}

/-- A request is answered, and the answer arrives. -/
theorem exists_answered {m : VoteRequest N} {l : Leadership} {r : VoteResponse}
    (hm : m ∈ s.requests)
    (ha : (s.nodes m.receiver).leadership.requestVote m.term m.candidateId = (l, r))
    (hrun : ClusterRun C Delivered s₀ log s) :
    ∃ log' s', ClusterRun C Delivered s₀ log' s' ∧
      s'.leadership = Function.update s.leadership m.receiver l ∧
      s'.requests = s.requests.erase m ∧ s'.replies = s.replies ∧
      s'.announcements = s.announcements ∧
      s'.campaigns = s.campaigns.map fun c =>
        if c.node = m.sender ∧ c.term = m.term then c.resolve m.receiver r.grants else c := by
  set reply : VoteReply N := ⟨m.receiver, m.sender, m.term, r⟩ with hreply
  have hrequested : ∃ s₁ es, s.step C (.receiveRequest m) = some (s₁, es) ∧
      s₁.leadership = Function.update s.leadership m.receiver l ∧
      s₁.requests = s.requests.erase m ∧ s₁.replies = reply :: s.replies ∧
      s₁.announcements = s.announcements ∧ s₁.campaigns = s.campaigns := by
    rw [ClusterState.step, if_pos hm, ha]
    exact ⟨_, _, rfl, ClusterState.leadership_setLeadership _, rfl, rfl, rfl, rfl⟩
  obtain ⟨s₁, es₁, hstep₁, hl₁, hreq₁, hrep₁, hann₁, hcamp₁⟩ := hrequested
  have hmem : reply ∈ s₁.replies := by rw [hrep₁]; exact List.mem_cons_self
  have hreplied : ∃ s₂ es, s₁.step C (.receiveReply reply) = some (s₂, es) ∧
      s₂.leadership = s₁.leadership ∧ s₂.requests = s₁.requests ∧
      s₂.replies = s₁.replies.erase reply ∧ s₂.announcements = s₁.announcements ∧
      s₂.campaigns = s₁.campaigns.map fun c =>
        if c.node = m.sender ∧ c.term = m.term then c.resolve m.receiver r.grants else c :=
    ⟨_, _, if_pos hmem, rfl, rfl, rfl, rfl, rfl⟩
  obtain ⟨s₂, es₂, hstep₂, hl₂, hreq₂, hrep₂, hann₂, hcamp₂⟩ := hreplied
  have hP₁ : Delivered s (.receiveRequest m) := ⟨True.intro, by simp⟩
  have hP₂ : Delivered s₁ (.receiveReply reply) := ⟨True.intro, by simp⟩
  refine ⟨_, s₂, (hrun.next _ hP₁ hstep₁).next _ hP₂ hstep₂, hl₂.trans hl₁, hreq₂.trans hreq₁, ?_,
    hann₂.trans hann₁, ?_⟩
  · rw [hrep₂, hrep₁, List.erase_cons_head]
  · rw [hcamp₂, hcamp₁]

theorem Collecting.next (hc : C.candidateId i ≠ []) (hrun : ClusterRun C Delivered s₀ log s)
    (h : Collecting C i granted (j :: rest) s) :
    ∃ log' s', ClusterRun C Delivered s₀ log' s' ∧ Collecting C i (granted ++ [j]) rest s' := by
  have hnd := C.peers_nodup i
  rw [h.peers] at hnd
  have hj : j ∉ rest := (List.nodup_cons.1 (List.nodup_append.1 hnd).2.1).1
  have hij : i ≠ j := fun hij => (C.mem_peers i j).1 (by rw [h.peers]; simp) hij.symm
  have hmem : firstRequest C i j ∈ s.requests := by rw [h.requests]; simp
  have hgrants := grants_firstRequest hc (h.fresh j (by simp))
  rcases ha : (s.leadership j).requestVote 1 (C.candidateId i) with ⟨l, r⟩
  rw [ha] at hgrants
  obtain ⟨log', s', hrun', hl, hreq, hrep, hann, hcamp⟩ := exists_answered hmem ha hrun
  have hother : ∀ x, x ≠ j → s'.leadership x = s.leadership x := fun x hx =>
    (congrFun hl x).trans (Function.update_of_ne hx _ _)
  refine ⟨log', s', hrun', ⟨?_, ?_, ?_, hrep.trans h.replies, hann.trans h.announcements, ?_, ?_⟩⟩
  · rw [h.peers, List.append_assoc, List.singleton_append]
  · rw [hcamp, h.campaigns, ← resolve_firstCampaign hj, ← hgrants]
    simp [firstRequest, firstCampaign]
  · rw [hreq, h.requests, List.map_cons, List.erase_cons_head]
  · rw [hother i hij]
    exact h.role
  · intro x hx
    rw [hother x fun hxj => hj (hxj ▸ hx)]
    exact h.fresh x (List.mem_cons_of_mem _ hx)

/-- Every peer is asked, and grants its vote. -/
theorem Collecting.all (hc : C.candidateId i ≠ []) : ∀ (rest granted : List N)
    {log : List (ClusterEvent N)} {s : ClusterState N}, ClusterRun C Delivered s₀ log s →
      Collecting C i granted rest s →
        ∃ log' s', ClusterRun C Delivered s₀ log' s' ∧ Collecting C i (C.peers i) [] s'
  | [], granted, log, s, hrun, h => by
    have hpeers := h.peers
    rw [List.append_nil] at hpeers
    exact ⟨log, s, hrun, hpeers ▸ h⟩
  | j :: rest, granted, log, s, hrun, h => by
    obtain ⟨log', s', hrun', h'⟩ := h.next hc hrun
    exact Collecting.all hc rest (granted ++ [j]) hrun' h'

theorem collecting_boot (primaryUrl : N → Option JsString) (replicaUrls : N → List JsString)
    (i : N) : ∃ log s, ClusterRun C Delivered (.boot C (fun _ => .replica) primaryUrl replicaUrls)
      log s ∧ Collecting C i [] (C.peers i) s := by
  set s₀ : ClusterState N := .boot C (fun _ => .replica) primaryUrl replicaUrls with hs₀
  have hstood : ∃ s es, s₀.step C (.campaignForPrimary i) = some (s, es) ∧
      s.leadership = Function.update s₀.leadership i { s₀.leadership i with
        election := ((s₀.leadership i).election.startElection (· + 1)).1 } ∧
      s.campaigns = [firstCampaign i [] (C.peers i)] ∧
      s.requests = (C.peers i).map (firstRequest C i) ∧ s.replies = [] ∧ s.announcements = [] := by
    refine ⟨_, _, rfl, leadership_stand true .campaignForPrimary, ?_, ?_, rfl, rfl⟩
    · simp [ClusterState.setInFlight, ClusterState.setNode, ClusterState.setLeadership,
        startElection_spec, firstCampaign, hs₀, ClusterState.boot, ElectionState.new]
    · simp [ClusterState.setInFlight, ClusterState.setNode, ClusterState.setLeadership,
        startElection_spec, firstRequest, hs₀, ClusterState.boot, ElectionState.new]
  obtain ⟨s, es, hstep, hl, hcamp, hreq, hrep, hann⟩ := hstood
  have hP : Delivered s₀ (.campaignForPrimary i) := ⟨rfl, by simp⟩
  refine ⟨_, s, Run.start.next _ hP hstep, ⟨rfl, hcamp, hreq, hrep, hann, ?_, ?_⟩⟩
  · rw [hl, Function.update_self]
    rfl
  · intro j hj
    rw [hl, Function.update_of_ne ((C.mem_peers i j).1 hj)]
    rfl

/-- With the votes of all its peers the replica wins, and is promoted. -/
theorem Collecting.conclude (hrun : ClusterRun C Delivered s₀ log s)
    (h : Collecting C i granted [] s) :
    ∃ log' s', ClusterRun C Delivered s₀ log' s' ∧ .promoted i 1 ∈ log' ∧
      Announcing C i (C.peers i) s' := by
  have hmem : firstCampaign i granted [] ∈ s.campaigns := by
    rw [h.campaigns]
    exact List.mem_singleton_self _
  have hrole : ¬ (s.leadership i).role = .primary := by rw [h.role]; decide
  have hacted := acted_of_won (C := C)
    (s := { s with campaigns := s.campaigns.erase (firstCampaign i granted []) })
    (won_firstCampaign granted) hrole
  have hconcluded : ∃ s' es, s.step C (.conclude (firstCampaign i granted [])) = some (s', es) ∧
      .promoted i 1 ∈ es ∧ s'.campaigns = s.campaigns.erase (firstCampaign i granted []) ∧
      s'.requests = s.requests ∧ s'.replies = s.replies ∧
      s'.announcements = s.announcements ++ announcementsOf C (firstCampaign i granted []) ∧
      (s'.leadership i).role = .primary := by
    refine ⟨_, _, if_pos ⟨hmem, resolved_firstCampaign granted⟩, ?_⟩
    rw [hacted]
    refine ⟨by simp [firstCampaign], rfl, rfl, rfl, rfl, ?_⟩
    exact congrArg Leadership.role ((congrFun (ClusterState.leadership_setLeadership _) i).trans
      (Function.update_self ..))
  obtain ⟨s', es, hstep, hes, hcamp, hreq, hrep, hann, hprimary⟩ := hconcluded
  have hP : Delivered s (.conclude (firstCampaign i granted [])) := ⟨True.intro, by simp⟩
  refine ⟨_, s', hrun.next _ hP hstep, List.mem_append_right _ hes,
    ⟨fun hi => (C.mem_peers i i).1 hi rfl, ?_, hreq.trans h.requests, hrep.trans h.replies, ?_,
      hprimary⟩⟩
  · rw [hcamp, h.campaigns, List.erase_cons_head]
  · rw [hann, h.announcements, List.nil_append]
    rfl

theorem Announcing.next (hrun : ClusterRun C Delivered s₀ log s)
    (h : Announcing C i (j :: rest) s) :
    ∃ es s', ClusterRun C Delivered s₀ (log ++ es) s' ∧ Announcing C i rest s' := by
  obtain ⟨hij, hi⟩ := not_or.1 (mt List.mem_cons.2 h.others)
  have hmem : firstAnnouncement C i j ∈ s.announcements := by rw [h.announcements]; simp
  have hdelivered : ∃ s' es, s.step C (.receiveLeader (firstAnnouncement C i j)) = some (s', es) ∧
      (∃ l, s'.leadership = Function.update s.leadership j l) ∧ s'.campaigns = s.campaigns ∧
      s'.requests = s.requests ∧ s'.replies = s.replies ∧
      s'.announcements = s.announcements.erase (firstAnnouncement C i j) :=
    ⟨_, _, if_pos hmem, ⟨_, ClusterState.leadership_setLeadership _⟩, rfl, rfl, rfl, rfl⟩
  obtain ⟨s', es, hstep, ⟨l, hl⟩, hcamp, hreq, hrep, hann⟩ := hdelivered
  have hP : Delivered s (.receiveLeader (firstAnnouncement C i j)) := ⟨True.intro, by simp⟩
  refine ⟨es, s', hrun.next _ hP hstep, hi, hcamp.trans h.campaigns, hreq.trans h.requests,
    hrep.trans h.replies, ?_, ?_⟩
  · rw [hann, h.announcements, List.map_cons, List.erase_cons_head]
  · rw [hl, Function.update_of_ne hij]
    exact h.role

theorem Announcing.all : ∀ (rest : List N) {log : List (ClusterEvent N)} {s : ClusterState N},
    ClusterRun C Delivered s₀ log s → Announcing C i rest s →
      ∃ es s', ClusterRun C Delivered s₀ (log ++ es) s' ∧ Announcing C i [] s'
  | [], log, s, hrun, h => ⟨[], s, by rwa [List.append_nil], h⟩
  | j :: rest, log, s, hrun, h => by
    obtain ⟨es, s', hrun', h'⟩ := h.next hrun
    obtain ⟨es', s'', hrun'', h''⟩ := Announcing.all rest hrun' h'
    exact ⟨es ++ es', s'', by rwa [← List.append_assoc], h''⟩

/-- From boot, any replica can win the first term and have everything delivered that is sent. -/
theorem exists_elected (hc : C.candidateId i ≠ []) (primaryUrl : N → Option JsString)
    (replicaUrls : N → List JsString) : ∃ log s,
      ClusterRun C Delivered (.boot C (fun _ => .replica) primaryUrl replicaUrls) log s ∧
      .promoted i 1 ∈ log ∧ Announcing C i [] s := by
  obtain ⟨log₁, s₁, hrun₁, h₁⟩ := collecting_boot (C := C) primaryUrl replicaUrls i
  obtain ⟨log₂, s₂, hrun₂, h₂⟩ := h₁.all hc _ _ hrun₁
  obtain ⟨log₃, s₃, hrun₃, hwon, h₃⟩ := h₂.conclude hrun₂
  obtain ⟨es, s₄, hrun₄, h₄⟩ := h₃.all _ hrun₃
  exact ⟨log₃ ++ es, s₄, hrun₄, List.mem_append_left _ hwon, h₄⟩

end Election

/-! ## The original primary -/

variable {N : Type} {D : Deployment N} {log : List (ClusterEvent N)}

theorem allDelivered_of_delivered {s : DeploymentState N} {a : ClusterAction N}
    (h : Delivered s.replicas a) : AllDelivered s (.replicas a) := by
  cases a with
  | giveUp c peer => exact h.2 c peer rfl
  | campaignForPrimary | runElection | receiveRequest | receiveReply | conclude | receiveLeader
  | promote => exact h.1

variable [DecidableEq N]

theorem original_primary {P : DeploymentState N → DeploymentAction N → Prop}
    {s : DeploymentState N} (h : Run D.step P D.boot log s) : s.original.role = .primary := by
  refine h.invariant (I := fun _ s => s.original.role = .primary) rfl ?_
  intro log s a s' es hs _ hstep
  cases a with
  | replicas a =>
    simp only [Deployment.step, Option.map_eq_some_iff, Prod.mk.injEq] at hstep
    obtain ⟨r, -, rfl, -⟩ := hstep
    exact hs
  | originalReceivesRequest m | originalReceivesLeader m =>
    -- no replica has the url of the original primary
    simp only [Deployment.step, D.primaryUrl_ne, and_false, if_false] at hstep
    simp at hstep

/-- The replicas' part of a run, while the original primary hears nothing. -/
theorem deploymentRun {s : ClusterState N}
    (h : ClusterRun D.replicas Delivered D.boot.replicas log s) :
    Run D.step AllDelivered D.boot log { replicas := s, original := D.boot.original } := by
  refine h.invariant (I := fun log s =>
    Run D.step AllDelivered D.boot log { replicas := s, original := D.boot.original }) .start ?_
  intro log s a s' es hrun hP hstep
  refine hrun.next (.replicas a) (allDelivered_of_delivered hP) ?_
  rw [Deployment.step, hstep]
  rfl

/-- In every deployment the original primary is one in every state of every run; and any replica can
win an election, so that with everything delivered both are primary. -/
theorem original_never_steps_down (D : Deployment N) :
    (∀ log s, Run D.step NoManual D.boot log s → s.original.role = .primary) ∧
    ∀ i, ∃ log s, Run D.step AllDelivered D.boot log s ∧ .promoted i 1 ∈ log ∧ NoneInFlight s ∧
      s.original.role = .primary ∧ (s.replicas.nodes i).leadership.role = .primary := by
  refine ⟨fun log s h => original_primary h, fun i => ?_⟩
  obtain ⟨log, s, hrun, hwon, h⟩ :=
    exists_elected (D.selfUrl_ne_nil i) (fun _ => some D.primaryUrl) fun _ => []
  exact ⟨log, _, deploymentRun hrun, hwon,
    ⟨h.requests, h.replies, h.campaigns, h.announcements⟩, rfl, h.role⟩

/-- The three replicas of `docs/api.md`, of which one wins with the votes of the others. -/
theorem original_and_replica_primary : ∃ (log : List (ClusterEvent (Fin 3)))
    (s : DeploymentState (Fin 3)),
    Run documented.step AllDelivered documented.boot log s ∧ .promoted 0 1 ∈ log ∧
    NoneInFlight s ∧ s.original.role = .primary ∧
    (s.replicas.nodes 0).leadership.role = .primary :=
  exists_run_of_exec [
    .replicas (.campaignForPrimary 0),
    .replicas (.receiveRequest ⟨0, 1, 1, js "http://a"⟩),
    .replicas (.receiveReply ⟨1, 0, 1, .voted ⟨true, 1⟩⟩),
    .replicas (.receiveRequest ⟨0, 2, 1, js "http://a"⟩),
    .replicas (.receiveReply ⟨2, 0, 1, .voted ⟨true, 1⟩⟩),
    .replicas (.conclude ⟨0, 1, .campaignForPrimary, [(1, some true), (2, some true)]⟩),
    .replicas (.receiveLeader ⟨0, 1, 1, js "http://a"⟩),
    .replicas (.receiveLeader ⟨0, 2, 1, js "http://a"⟩)] (by decide +kernel)

end InkCache
