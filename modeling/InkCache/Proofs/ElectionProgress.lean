import InkCache.Proofs.Promotion

/-!
# A campaign that nobody contests is won

Every message in flight carries a term that its sender has reached (`Dated`). So a replica that
stands for election where nobody is in a later term stands in a term of its own: until another node
stands, every other request and announcement belongs to an earlier term, every node is in an earlier
term or has voted for the candidate, and an open slot of the campaign has a request or a granted
vote on its way (`Campaigning`).
-/

namespace InkCache

open Lib

variable {N : Type} [DecidableEq N] {C : ClusterConfig N} {log es : List (ClusterEvent N)}
  {s s' : ClusterState N} {a : ClusterAction N} {i j : N} {t : ℤ} {D : Finset N}

/-! ## Terms of messages -/

/-- Terms are not negative, and who sent a message or campaigns has reached the term. -/
structure Dated (s : ClusterState N) : Prop where
  nonneg : ∀ j, 0 ≤ (s.ballot j).term
  campaigns : ∀ c ∈ s.campaigns, c.term ≤ (s.ballot c.node).term
  requests : ∀ m ∈ s.requests, m.term ≤ (s.ballot m.sender).term
  replies : ∀ r ∈ s.replies, r.requested ≤ (s.ballot r.receiver).term
  announcements : ∀ m ∈ s.announcements, m.term ≤ (s.ballot m.sender).term

theorem Dated.step (h : Dated s) (hs : ClusterStep C s a s' es) : Dated s' := by
  have hle : ∀ j, (s.ballot j).term ≤ (s'.ballot j).term := hs.term_le
  have hnonneg : ∀ j, 0 ≤ (s'.ballot j).term := fun j => (h.nonneg j).trans (hle j)
  have hcampaigns : ∀ c ∈ s.campaigns, c.term ≤ (s'.ballot c.node).term :=
    fun c hc => (h.campaigns c hc).trans (hle _)
  have hrequests : ∀ m ∈ s.requests, m.term ≤ (s'.ballot m.sender).term :=
    fun m hm => (h.requests m hm).trans (hle _)
  have hreplies : ∀ r ∈ s.replies, r.requested ≤ (s'.ballot r.receiver).term :=
    fun r hr => (h.replies r hr).trans (hle _)
  have hannouncements : ∀ m ∈ s.announcements, m.term ≤ (s'.ballot m.sender).term :=
    fun m hm => (h.announcements m hm).trans (hle _)
  cases hs with
  | stand k caller b ha =>
    have hl : ((s.setInFlight k b).nodes k).leadership = s.leadership k :=
      congrFun (ClusterState.leadership_setInFlight b) k
    have hterm : (((s.setInFlight k b).stand C k caller).1.ballot k).term =
        (s.ballot k).term + 1 := by
      rw [ClusterState.ballot, leadership_stand, Function.update_self]
      rfl
    refine ⟨hnonneg, List.forall_mem_cons.2 ⟨?_, hcampaigns⟩, fun m hm => ?_, hreplies,
      hannouncements⟩
    · simp only [hl, startElection_spec]
      exact hterm.ge
    · rcases List.mem_append.1 hm with hm | hm
      · exact hrequests m hm
      · obtain ⟨j, -, rfl⟩ := List.mem_map.1 hm
        simp only [hl, startElection_spec]
        exact hterm.ge
  | request m hm r hr =>
    refine ⟨hnonneg, hcampaigns, fun m' hm' => hrequests m' (List.mem_of_mem_erase hm'),
      List.forall_mem_cons.2 ⟨?_, hreplies⟩, hannouncements⟩
    rw [hr.2.1, hr.2.2]
    exact hrequests m hm
  | reply m hm =>
    refine ⟨hnonneg, fun c hc => ?_, hrequests,
      fun r hr => hreplies r (List.mem_of_mem_erase hr), hannouncements⟩
    obtain ⟨c', hc', rfl⟩ := List.mem_map.1 hc
    split_ifs
    · exact hcampaigns c' hc'
    · exact hcampaigns c' hc'
  | giveUp c peer hc =>
    exact ⟨hnonneg, List.forall_mem_cons.2 ⟨hcampaigns c hc,
      fun c' hc' => hcampaigns c' (List.mem_of_mem_erase hc')⟩, hrequests, hreplies,
      hannouncements⟩
  | concluded c hc b =>
    exact ⟨hnonneg, fun c' hc' => hcampaigns c' (List.mem_of_mem_erase hc'), hrequests, hreplies,
      hannouncements⟩
  | promoted c hc hwon urls =>
    refine ⟨hnonneg, fun c' hc' => hcampaigns c' (List.mem_of_mem_erase hc'), hrequests, hreplies,
      fun m hm => ?_⟩
    rcases List.mem_append.1 hm with hm | hm
    · exact hannouncements m hm
    · obtain ⟨j, -, rfl⟩ := List.mem_map.1 hm
      exact hcampaigns c hc
  | leader m hm hl =>
    exact ⟨hnonneg, hcampaigns, hrequests, hreplies,
      fun m' hm' => hannouncements m' (List.mem_of_mem_erase hm')⟩
  | manual k urls => exact ⟨hnonneg, hcampaigns, hrequests, hreplies, hannouncements⟩

theorem bounded_of_run {P : ClusterState N → ClusterAction N → Prop} {role : N → Role}
    {primaryUrl : N → Option JsString} {replicaUrls : N → List JsString}
    (h : ClusterRun C P (.boot C role primaryUrl replicaUrls) log s) : Dated s := by
  refine h.invariant (I := fun _ s => Dated s) ⟨fun j => le_rfl, ?_, ?_, ?_, ?_⟩
    fun hI _ hs => hI.step (clusterStep hs)
  all_goals simp [ClusterState.boot]

/-! ## The guard -/

/-- A node has as many campaigns by `campaignForPrimary` as its guard says: one or none. -/
def Guarded (s : ClusterState N) : Prop := ∀ j,
  (s.campaigns.countP fun c => c.node = j ∧ c.caller = .campaignForPrimary) =
    if (s.nodes j).electionInFlight then 1 else 0

theorem inFlight_setLeadership (l : Leadership) :
    ((s.setLeadership i l).nodes j).electionInFlight = (s.nodes j).electionInFlight := by
  by_cases h : j = i
  · subst h
    simp [ClusterState.setLeadership, ClusterState.setNode]
  · simp [ClusterState.setLeadership, ClusterState.setNode, h]

theorem inFlight_setInFlight (b : Bool) : ((s.setInFlight i b).nodes j).electionInFlight =
    if j = i then b else (s.nodes j).electionInFlight := by
  by_cases h : j = i
  · subst h
    simp [ClusterState.setInFlight, ClusterState.setNode]
  · simp [ClusterState.setInFlight, ClusterState.setNode, h]

theorem campaigns_setLeadership (l : Leadership) :
    (s.setLeadership i l).campaigns = s.campaigns := rfl

theorem campaigns_setInFlight (b : Bool) : (s.setInFlight i b).campaigns = s.campaigns := rfl

theorem acted_campaigns (c : Campaign N) : (s.acted C c).1.campaigns = s.campaigns := by
  simp only [ClusterState.acted]
  split_ifs <;> rfl

theorem acted_inFlight (c : Campaign N) : ((s.acted C c).1.nodes j).electionInFlight =
    if j = c.node then false else (s.nodes j).electionInFlight := by
  rw [← inFlight_setInFlight]
  simp only [ClusterState.acted]
  split_ifs
  · exact inFlight_setLeadership _
  · rfl

theorem Guarded.step (h : Guarded s) (hs : s.step C a = some (s', es)) : Guarded s' := by
  intro j
  have hj := h j
  cases a with
  | campaignForPrimary k =>
    simp only [ClusterState.step] at hs
    split_ifs at hs with hk
    obtain ⟨rfl, -⟩ := Prod.mk.inj (Option.some.inj hs)
    simp only [inFlight_setLeadership, inFlight_setInFlight,
      campaigns_setLeadership, campaigns_setInFlight, List.countP_cons]
    by_cases hkj : k = j
    · subst hkj
      rw [Bool.not_eq_true] at hk
      rw [hk] at hj
      simpa using hj
    · simpa [hkj, Ne.symm hkj] using hj
  | runElection k =>
    simp only [ClusterState.step, Option.some.injEq] at hs
    obtain ⟨rfl, -⟩ := Prod.mk.inj hs
    simp only [inFlight_setLeadership, campaigns_setLeadership,
      List.countP_cons]
    simpa using hj
  | receiveRequest m =>
    have hm : m ∈ s.requests := by
      by_contra hm
      simp [ClusterState.step, hm] at hs
    simp only [ClusterState.step, if_pos hm] at hs
    obtain ⟨rfl, -⟩ := Prod.mk.inj (Option.some.inj hs)
    simpa only [inFlight_setLeadership, campaigns_setLeadership] using hj
  | receiveReply m =>
    simp only [ClusterState.step] at hs
    split_ifs at hs
    obtain ⟨rfl, -⟩ := Prod.mk.inj (Option.some.inj hs)
    rw [List.countP_map, ← hj]
    refine List.countP_congr fun c _ => ?_
    simp only [Function.comp_apply]
    split_ifs <;> rfl
  | giveUp c peer =>
    simp only [ClusterState.step] at hs
    split_ifs at hs with hc
    obtain ⟨rfl, -⟩ := Prod.mk.inj (Option.some.inj hs)
    rw [← hj, (List.perm_cons_erase hc).countP_eq, List.countP_cons, List.countP_cons]
    rfl
  | conclude c =>
    simp only [ClusterState.step] at hs
    split_ifs at hs with hc
    have hcount := (List.perm_cons_erase hc.1).countP_eq
      fun c => c.node = j ∧ c.caller = .campaignForPrimary
    rw [List.countP_cons] at hcount
    rcases hcaller : c.caller <;> rw [hcaller] at hs <;>
      obtain ⟨rfl, -⟩ := Prod.mk.inj (Option.some.inj hs)
    · rw [acted_campaigns, acted_inFlight]
      by_cases hcj : j = c.node
      · subst hcj
        simp only [hcaller, and_self, decide_true, if_true] at hcount
        rw [if_pos rfl]
        simp only [Bool.false_eq_true, if_false]
        split_ifs at hj
        · omega
        · omega
      · have hne : ¬ c.node = j := fun he => hcj he.symm
        simp only [hne, false_and, decide_false, Bool.false_eq_true, if_false, add_zero] at hcount
        rw [if_neg hcj, ← hj, hcount]
    · simp only [hcaller, reduceCtorEq, and_false, decide_false, Bool.false_eq_true, if_false,
        add_zero] at hcount
      rw [← hj, hcount]
  | receiveLeader m =>
    have hm : m ∈ s.announcements := by
      by_contra hm
      simp [ClusterState.step, hm] at hs
    simp only [ClusterState.step, if_pos hm] at hs
    obtain ⟨rfl, -⟩ := Prod.mk.inj (Option.some.inj hs)
    simpa only [inFlight_setLeadership, campaigns_setLeadership] using hj
  | promote k urls =>
    simp only [ClusterState.step, Option.some.injEq] at hs
    obtain ⟨rfl, -⟩ := Prod.mk.inj hs
    simpa only [inFlight_setLeadership, campaigns_setLeadership] using hj

/-! ## The campaign -/

/-- Nobody else stands for election, the candidate is not promoted by hand, and its campaign gives
up no peer outside of `D`. -/
def Uncontested (i : N) (D : Finset N) (_ : ClusterState N) : ClusterAction N → Prop
  | .campaignForPrimary _ | .runElection _ => False
  | .promote j _ => j ≠ i
  | .giveUp c peer => c.node = i → peer ∈ D
  | _ => True

instance (i : N) (D : Finset N) (s : ClusterState N) : ∀ a, Decidable (Uncontested i D s a)
  | .campaignForPrimary _ | .runElection _ => instDecidableFalse
  | .promote j _ => inferInstanceAs (Decidable (j ≠ i))
  | .giveUp c peer => inferInstanceAs (Decidable (c.node = i → peer ∈ D))
  | .receiveRequest _ | .receiveReply _ | .conclude _ | .receiveLeader _ => instDecidableTrue

/-- What the candidate asks a peer. -/
def requestOf (C : ClusterConfig N) (i : N) (t : ℤ) (j : N) : VoteRequest N where
  sender := i
  receiver := j
  term := t
  candidateId := C.candidateId i

/-- The candidate has voted for itself in term `t`; the others are in an earlier term, or have voted
for it. -/
structure Candidacy (C : ClusterConfig N) (i : N) (t : ℤ) (leadership : N → Leadership) : Prop where
  role : (leadership i).role = .replica
  own : (leadership i).election.ballot = ⟨t, some (C.candidateId i)⟩
  others : ∀ j, (leadership j).election.ballot.term < t ∨
    (leadership j).election.ballot = ⟨t, some (C.candidateId i)⟩

theorem Candidacy.update {leadership : N → Leadership} (h : Candidacy C i t leadership)
    {l : Leadership}
    (hi : j = i → l.role = .replica ∧ l.election.ballot = ⟨t, some (C.candidateId i)⟩)
    (hl : l.election.ballot.term < t ∨ l.election.ballot = ⟨t, some (C.candidateId i)⟩) :
    Candidacy C i t (Function.update leadership j l) := by
  have hself : j = i → (Function.update leadership j l i) = l := by
    rintro rfl
    exact Function.update_self _ _ _
  by_cases hj : j = i
  · refine ⟨(hself hj).symm ▸ (hi hj).1, (hself hj).symm ▸ (hi hj).2, fun k => ?_⟩
    rw [Function.update_apply]
    split_ifs
    · exact hl
    · exact h.others k
  · have hne : Function.update leadership j l i = leadership i :=
      Function.update_of_ne (Ne.symm hj) _ _
    refine ⟨hne.symm ▸ h.role, hne.symm ▸ h.own, fun k => ?_⟩
    rw [Function.update_apply]
    split_ifs
    · exact hl
    · exact h.others k

omit [DecidableEq N] in
theorem Candidacy.term {leadership : N → Leadership} (h : Candidacy C i t leadership) :
    (leadership i).election.currentTerm = t := congrArg Ballot.term h.own

/-- A request of an earlier term, or of the candidate, leaves the candidate standing. -/
theorem Candidacy.vote {leadership : N → Leadership} (h : Candidacy C i t leadership) {u : ℤ}
    {k : JsString} {l : Leadership} {b : Bool} (hl : VoteRouteStep u k (leadership j) l b)
    (hu : u < t ∨ u = t ∧ k = C.candidateId i) :
    Candidacy C i t (Function.update leadership j l) := by
  cases hl with
  | refused =>
    rw [Function.update_eq_self]
    exact h
  | granted hc hle hfree role hrole =>
    rcases hu with hlt | ⟨rfl, rfl⟩
    · refine h.update (fun hj => ?_) (.inl hlt)
      subst hj
      exact absurd hlt (h.term ▸ hle).not_gt
    · refine h.update (fun hj => ⟨?_, rfl⟩) (.inr rfl)
      subst hj
      cases role with
      | replica => rfl
      | primary =>
        have hprimary := (hrole rfl).1
        rw [h.role] at hprimary
        exact absurd hprimary (by decide)

/-- An announcement of an earlier term leaves the candidate standing. -/
theorem Candidacy.leader {leadership : N → Leadership} (h : Candidacy C i t leadership) {u : ℤ}
    {url : JsString} {l : Leadership} {b : Bool} (hl : LeaderRouteStep u url (leadership j) l b)
    (hu : u < t) : Candidacy C i t (Function.update leadership j l) := by
  cases hl with
  | refused =>
    rw [Function.update_eq_self]
    exact h
  | adopted hle =>
    refine h.update (fun hj => ?_) (.inl ?_)
    · subst hj
      exact absurd hu (h.term ▸ hle).not_gt
    · exact (observeTerm_term hle _).trans_lt hu

/-- `c` is the campaign of `i` in term `t`, and nothing is in its way. -/
structure Campaigning (C : ClusterConfig N) (i : N) (t : ℤ) (D : Finset N) (c : Campaign N)
    (s : ClusterState N) : Prop where
  nonneg : 0 ≤ t
  standing : Candidacy C i t s.leadership
  requests : ∀ m ∈ s.requests, m.term < t ∨ m = requestOf C i t m.receiver
  announcements : ∀ m ∈ s.announcements, m.term < t
  replies : ∀ r ∈ s.replies, r.receiver = i → r.requested = t → r.response.grants = true
  campaigns : ∃ rest, s.campaigns.Perm (c :: rest) ∧
    ∀ c' ∈ rest, c'.term < t ∧ (c'.node = i → c'.caller = .other)
  candidate : c.node = i ∧ c.term = t ∧ c.caller = .campaignForPrimary
  peers : c.slots.map Prod.fst = C.peers i
  lost : ∀ x ∈ c.slots, x.2 = some false → x.1 ∈ D
  pending : ∀ x ∈ c.slots, x.2 = none → requestOf C i t x.1 ∈ s.requests ∨
    ∃ r ∈ s.replies, r.sender = x.1 ∧ r.receiver = i ∧ r.requested = t

/-- A vote that is free is granted. -/
theorem requestVote_grants {n : Leadership} {k : JsString} (ht : 0 ≤ t) (hk : k ≠ [])
    (hfree : n.election.ballot.term < t ∨ n.election.ballot = ⟨t, some k⟩) :
    (n.requestVote t k).2.grants = true := by
  have hlen : ¬ k.length = 0 := fun h => hk (List.length_eq_zero_iff.1 h)
  simp only [Leadership.requestVote, if_neg ht.not_gt, if_neg hlen, VoteResponse.grants]
  unfold ElectionState.requestVote
  rcases hfree with hlt | heq
  · have hlt' : n.election.currentTerm < t := hlt
    simp only [if_neg hlt'.not_gt, if_pos hlt', true_or, if_true]
  · obtain ⟨hterm, hvote⟩ : n.election.currentTerm = t ∧ n.election.votedFor = some k :=
      ⟨congrArg Ballot.term heq, congrArg Ballot.vote heq⟩
    simp only [hterm, lt_self_iff_false, if_false, hvote, or_true, if_true]

namespace Campaigning

variable {c : Campaign N}

theorem stand (hb : Dated s) (hg : Guarded s) (hidle : (s.nodes i).electionInFlight = false)
    (hrole : (s.leadership i).role = .replica)
    (hself : (s.leadership i).election.selfId = C.candidateId i)
    (hlatest : ∀ j, (s.ballot j).term ≤ (s.ballot i).term) (b : Bool) :
    Campaigning C i ((s.ballot i).term + 1) D
      ⟨i, (s.ballot i).term + 1, .campaignForPrimary, (C.peers i).map (·, none)⟩
      ((s.setInFlight i b).stand C i .campaignForPrimary).1 := by
  have hl : ((s.setInFlight i b).nodes i).leadership = s.leadership i :=
    congrFun (ClusterState.leadership_setInFlight b) i
  have hbefore : ∀ {k : N} {u : ℤ}, u ≤ (s.ballot k).term → u < (s.ballot i).term + 1 :=
    fun {k u} hu => by have := hlatest k; omega
  have hown : ((s.setInFlight i b).stand C i .campaignForPrimary).1.ballot i =
      ⟨(s.ballot i).term + 1, some (C.candidateId i)⟩ := by
    rw [ClusterState.ballot, leadership_stand, Function.update_self, startElection_spec, ← hself]
    rfl
  have hrequests : ((s.setInFlight i b).stand C i .campaignForPrimary).1.requests =
      s.requests ++ (C.peers i).map (requestOf C i ((s.ballot i).term + 1)) := by
    simp only [ClusterState.stand, hl, startElection_spec]
    rfl
  refine ⟨by have := hb.nonneg i; omega, ⟨?_, hown, fun j => ?_⟩, fun m hm => ?_, fun m hm => ?_,
    fun r hr hri hrt => ?_, ⟨s.campaigns, ?_, fun c' hc' => ⟨hbefore (hb.campaigns c' hc'), ?_⟩⟩,
    ⟨rfl, rfl, rfl⟩, ?_, ?_, fun x hx _ => ?_⟩
  · rw [leadership_stand, Function.update_self]
    exact hrole
  · by_cases hj : j = i
    · exact .inr (hj ▸ hown)
    · left
      rw [leadership_stand, Function.update_of_ne hj]
      exact hbefore (k := j) le_rfl
  · rw [hrequests] at hm
    rcases List.mem_append.1 hm with hm | hm
    · exact .inl (hbefore (hb.requests m hm))
    · obtain ⟨j, -, rfl⟩ := List.mem_map.1 hm
      exact .inr rfl
  · exact hbefore (hb.announcements m hm)
  · have hr' := hbefore (hb.replies r hr)
    omega
  · simp only [ClusterState.stand, hl, startElection_spec]
    rfl
  · have hnone := hg i
    rw [hidle, if_neg Bool.false_ne_true, List.countP_eq_zero] at hnone
    intro hnode
    rcases hcaller : c'.caller
    · exact absurd (decide_eq_true ⟨hnode, hcaller⟩) (hnone c' hc')
    · rfl
  · simp [Function.comp_def]
  · intro x hx hfalse
    obtain ⟨j, -, rfl⟩ := List.mem_map.1 hx
    simp at hfalse
  · obtain ⟨j, hj, rfl⟩ := List.mem_map.1 hx
    rw [hrequests]
    exact .inl (List.mem_append_right _ (List.mem_map.2 ⟨j, hj, rfl⟩))

theorem request (h : Campaigning C i t D c s) (hname : C.candidateId i ≠ []) {m : VoteRequest N}
    (hs : s.step C (.receiveRequest m) = some (s', es)) : Campaigning C i t D c s' ∧
      ∃ r ∈ s'.replies, r.sender = m.receiver ∧ r.receiver = m.sender ∧ r.requested = m.term := by
  have hm : m ∈ s.requests := by
    by_contra hm
    simp [ClusterState.step, hm] at hs
  simp only [ClusterState.step, if_pos hm, Option.some.injEq, Prod.mk.injEq] at hs
  obtain ⟨rfl, -⟩ := hs
  have hl := voteRouteStep m.term m.candidateId (s.leadership m.receiver)
  set r := (s.leadership m.receiver).requestVote m.term m.candidateId with hr
  have hgrants : m.term = t → r.2.grants = true := by
    intro ht
    rcases h.requests m hm with hlt | heq
    · omega
    · rw [hr, ht, congrArg VoteRequest.candidateId heq]
      exact requestVote_grants h.nonneg hname (h.standing.others m.receiver)
  have hmine : m.term < t ∨ m.term = t ∧ m.candidateId = C.candidateId i :=
    (h.requests m hm).imp_right fun heq =>
      ⟨congrArg VoteRequest.term heq, congrArg VoteRequest.candidateId heq⟩
  refine ⟨{ h with
    standing := ?_
    requests := fun m' hm' => h.requests m' (List.mem_of_mem_erase hm')
    replies := List.forall_mem_cons.2 ⟨fun _ => hgrants, h.replies⟩
    pending := fun x hx hopen => ?_ }, _, List.mem_cons_self, rfl, rfl, rfl⟩
  · exact ClusterState.leadership_setLeadership (s := s) r.1 ▸ h.standing.vote hl hmine
  · rcases h.pending x hx hopen with hx' | ⟨r', hr', hx'⟩
    · by_cases heq : requestOf C i t x.1 = m
      · exact .inr ⟨_, List.mem_cons_self, by rw [← heq]; exact ⟨rfl, rfl, rfl⟩⟩
      · exact .inl ((List.mem_erase_of_ne heq).2 hx')
    · exact .inr ⟨r', List.mem_cons_of_mem _ hr', hx'⟩

/-- A slot of the campaign that is left open was open, and is of another peer. -/
theorem mem_resolve {peer : N} {grant : Bool} {x : N × Option Bool}
    (hx : x ∈ (c.resolve peer grant).slots) :
    x ∈ c.slots ∧ ¬ (x.1 = peer ∧ x.2 = none) ∨
      x = (peer, some grant) ∧ (peer, none) ∈ c.slots := by
  obtain ⟨⟨k, v⟩, hy, rfl⟩ := List.mem_map.1 hx
  split_ifs with hopen
  · obtain ⟨rfl, rfl⟩ := hopen
    exact .inr ⟨rfl, hy⟩
  · exact .inl ⟨hy, hopen⟩

theorem peers_resolve (c : Campaign N) (peer : N) (grant : Bool) :
    (c.resolve peer grant).slots.map Prod.fst = c.slots.map Prod.fst := by
  simp only [Campaign.resolve, List.map_map]
  refine List.map_congr_left fun x _ => ?_
  simp only [Function.comp_apply]
  split_ifs <;> rfl

/-- A slot of the campaign is filled, with a grant unless the peer may be given up. -/
theorem resolve (h : Campaigning C i t D c s) {peer : N} {grant : Bool}
    (hlost : grant = false → peer ∈ D)
    (hcampaigns : ∃ rest, s'.campaigns.Perm (c.resolve peer grant :: rest) ∧
      ∀ c' ∈ rest, c'.term < t ∧ (c'.node = i → c'.caller = .other))
    (hleadership : s'.leadership = s.leadership) (hrequests : s'.requests = s.requests)
    (hannouncements : s'.announcements = s.announcements)
    (hreplies : ∀ r ∈ s'.replies, r ∈ s.replies)
    (hkept : ∀ r ∈ s.replies, r.sender ≠ peer → r ∈ s'.replies) :
    Campaigning C i t D (c.resolve peer grant) s' where
  nonneg := h.nonneg
  standing := hleadership ▸ h.standing
  requests := hrequests ▸ h.requests
  announcements := hannouncements ▸ h.announcements
  replies r hr := h.replies r (hreplies r hr)
  campaigns := hcampaigns
  candidate := h.candidate
  peers := (peers_resolve c peer grant).trans h.peers
  lost x hx hfalse := by
    rcases mem_resolve hx with ⟨hx, -⟩ | ⟨rfl, -⟩
    · exact h.lost x hx hfalse
    · exact hlost (Option.some.inj hfalse)
  pending x hx hopen := by
    rcases mem_resolve hx with ⟨hx, hother⟩ | ⟨rfl, -⟩
    · rw [hrequests]
      refine (h.pending x hx hopen).imp_right fun ⟨r, hr, hrx⟩ => ⟨r, hkept r hr ?_, hrx⟩
      rw [hrx.1]
      exact fun he => hother ⟨he, hopen⟩
    · simp at hopen

theorem reply (h : Campaigning C i t D c s) {m : VoteReply N}
    (hs : s.step C (.receiveReply m) = some (s', es)) : ∃ c', Campaigning C i t D c' s' ∧
      (m.receiver = i → m.requested = t → c' = c.resolve m.sender m.response.grants) := by
  have hm : m ∈ s.replies := by
    by_contra hm
    simp [ClusterState.step, hm] at hs
  simp only [ClusterState.step, if_pos hm, Option.some.injEq, Prod.mk.injEq] at hs
  obtain ⟨rfl, -⟩ := hs
  obtain ⟨rest, hperm, hrest⟩ := h.campaigns
  obtain ⟨hnode, hterm, -⟩ := h.candidate
  set f := fun c : Campaign N => if c.node = m.receiver ∧ c.term = m.requested then
    c.resolve m.sender m.response.grants else c with hf
  have hrest' : ∀ c' ∈ rest.map f, c'.term < t ∧ (c'.node = i → c'.caller = .other) := by
    intro c' hc'
    obtain ⟨c₀, hc₀, rfl⟩ := List.mem_map.1 hc'
    simp only [hf]
    split_ifs
    · exact hrest c₀ hc₀
    · exact hrest c₀ hc₀
  have hmap : (s.campaigns.map f).Perm (f c :: rest.map f) := hperm.map f
  by_cases hmine : m.receiver = i ∧ m.requested = t
  · have hfc : f c = c.resolve m.sender m.response.grants := by
      simp only [hf, hnode, hterm, hmine, and_self, if_true]
    rw [hfc] at hmap
    have hgrants := h.replies m hm hmine.1 hmine.2
    refine ⟨_, h.resolve (fun hfalse => ?_) ⟨_, hmap, hrest'⟩ rfl rfl rfl
      (fun r hr => List.mem_of_mem_erase hr) (fun r hr hne => (List.mem_erase_of_ne ?_).2 hr),
      fun _ _ => rfl⟩
    · rw [hgrants] at hfalse
      exact absurd hfalse (by decide)
    · rintro rfl
      exact hne rfl
  · have hfc : f c = c := by
      simp only [hf, hnode, hterm]
      rw [if_neg fun he => hmine ⟨he.1.symm, he.2.symm⟩]
    rw [hfc] at hmap
    refine ⟨c, { h with
      campaigns := ⟨_, hmap, hrest'⟩
      replies := fun r hr => h.replies r (List.mem_of_mem_erase hr)
      pending := fun x hx hopen => (h.pending x hx hopen).imp_right ?_ },
      fun hi ht => absurd ⟨hi, ht⟩ hmine⟩
    rintro ⟨r, hr, hrx⟩
    refine ⟨r, (List.mem_erase_of_ne ?_).2 hr, hrx⟩
    rintro rfl
    exact hmine hrx.2

theorem giveUp (h : Campaigning C i t D c s) {c₀ : Campaign N} {peer : N}
    (hD : c₀.node = i → peer ∈ D) (hs : s.step C (.giveUp c₀ peer) = some (s', es)) :
    ∃ c', Campaigning C i t D c' s' := by
  simp only [ClusterState.step] at hs
  split_ifs at hs with hc₀
  obtain ⟨rfl, -⟩ := Prod.mk.inj (Option.some.inj hs)
  obtain ⟨rest, hperm, hrest⟩ := h.campaigns
  by_cases heq : c₀ = c
  · subst heq
    have herase : (s.campaigns.erase c₀).Perm rest := by
      simpa using hperm.erase c₀
    exact ⟨_, h.resolve (fun _ => hD h.candidate.1) ⟨rest, herase.cons _, hrest⟩ rfl rfl rfl
      (fun r hr => hr) fun r hr _ => hr⟩
  · have hmem : c₀ ∈ rest := by
      rcases List.mem_cons.1 (hperm.mem_iff.1 hc₀) with hc | hc
      · exact absurd hc heq
      · exact hc
    have herase : (s.campaigns.erase c₀).Perm (c :: rest.erase c₀) := by
      have := hperm.erase c₀
      rwa [List.erase_cons_tail (by simpa using Ne.symm heq)] at this
    refine ⟨c, { h with campaigns := ⟨c₀.resolve peer false :: rest.erase c₀,
      (herase.cons _).trans (.swap _ _ _), List.forall_mem_cons.2 ⟨?_, fun c' hc' => ?_⟩⟩ }⟩
    · exact hrest c₀ hmem
    · exact hrest c' (List.mem_of_mem_erase hc')

theorem leader (h : Campaigning C i t D c s) {m : Announcement N}
    (hs : s.step C (.receiveLeader m) = some (s', es)) : Campaigning C i t D c s' := by
  cases clusterStep hs with
  | leader m hm hl =>
    refine { h with
      standing := ?_
      announcements := fun m' hm' => h.announcements m' (List.mem_of_mem_erase hm') }
    have hstanding := h.standing.leader hl (h.announcements m hm)
    rwa [← ClusterState.leadership_setLeadership] at hstanding
  | stand i caller b ha => simp at ha

theorem promote (h : Campaigning C i t D c s) {urls : List JsString} (hj : j ≠ i)
    (hs : s.step C (.promote j urls) = some (s', es)) : Campaigning C i t D c s' := by
  simp only [ClusterState.step, Option.some.injEq, Prod.mk.injEq] at hs
  obtain ⟨rfl, -⟩ := hs
  refine { h with standing := ?_ }
  rw [ClusterState.leadership_setLeadership]
  refine h.standing.update (fun he => absurd he hj) ?_
  rw [promoteToPrimary_election]
  exact h.standing.others j

/-- Another campaign concludes, of an earlier term. -/
theorem conclude_other (h : Campaigning C i t D c s) {c₀ : Campaign N} (hne : c₀ ≠ c)
    (hs : s.step C (.conclude c₀) = some (s', es)) :
    Campaigning C i t D c s' ∧ ∀ won, .concluded i t won ∉ es := by
  obtain ⟨rest, hperm, hrest⟩ := h.campaigns
  have hmem : c₀ ∈ rest := by
    have hc₀ := (clusterStep hs).mem_campaigns
    rcases List.mem_cons.1 (hperm.mem_iff.1 hc₀) with hc | hc
    · exact absurd hc hne
    · exact hc
  obtain ⟨hlt, hcaller⟩ := hrest c₀ hmem
  have herase : (s.campaigns.erase c₀).Perm (c :: rest.erase c₀) := by
    have := hperm.erase c₀
    rwa [List.erase_cons_tail (by simpa using Ne.symm hne)] at this
  have hcampaigns : ∃ rest', (s.campaigns.erase c₀).Perm (c :: rest') ∧
      ∀ c' ∈ rest', c'.term < t ∧ (c'.node = i → c'.caller = .other) :=
    ⟨_, herase, fun c' hc' => hrest c' (List.mem_of_mem_erase hc')⟩
  by_cases hi : c₀.node = i
  · simp only [ClusterState.step] at hs
    split_ifs at hs
    simp only [hcaller hi, Option.some.injEq, Prod.mk.injEq] at hs
    obtain ⟨rfl, rfl⟩ := hs
    refine ⟨{ h with campaigns := hcampaigns }, fun won hw => ?_⟩
    simp only [List.mem_singleton, ClusterEvent.concluded.injEq] at hw
    omega
  · cases clusterStep hs with
    | stand i caller b ha => simp at ha
    | concluded c hc b =>
      refine ⟨{ h with
        standing := ?_
        campaigns := hcampaigns }, fun won hw => ?_⟩
      · have hsame := ClusterState.leadership_setInFlight (s := s) (i := c₀.node) b
        exact hsame ▸ h.standing
      · simp only [List.mem_singleton, ClusterEvent.concluded.injEq] at hw
        omega
    | promoted c hc hwon urls =>
      refine ⟨{ h with
        standing := ?_
        campaigns := hcampaigns
        announcements := fun m hm => ?_ }, fun won hw => ?_⟩
      · set l : Leadership := { s.leadership c₀.node with
          role := .primary, primaryUrl := none, replicaUrls := urls }
        have hsame : ((s.setInFlight c₀.node false).setLeadership c₀.node l).leadership =
            Function.update s.leadership c₀.node l := by
          rw [ClusterState.leadership_setLeadership, ClusterState.leadership_setInFlight]
        have hstanding := h.standing.update (l := l) (fun he => absurd he hi)
          (h.standing.others c₀.node)
        exact hsame ▸ hstanding
      · rcases List.mem_append.1 hm with hm | hm
        · exact h.announcements m hm
        · obtain ⟨j, -, rfl⟩ := List.mem_map.1 hm
          exact hlt
      · simp only [List.mem_cons, List.not_mem_nil, or_false, ClusterEvent.concluded.injEq,
          reduceCtorEq] at hw
        omega

/-! ## The conclusion -/

/-- A campaign that lost less than half of the cluster has a majority. -/
theorem won_of_resolved (h : Campaigning C i t D c s)
    (hD : 2 * D.card < (C.peers i).length + 1) (hresolved : c.resolved = true) :
    c.won = true := by
  set lost := (c.slots.filter fun x => x.2 = some false).map Prod.fst with hlost
  have hsub : lost.Sublist (C.peers i) := h.peers ▸ List.filter_sublist.map _
  have hcard : lost.length ≤ D.card := by
    rw [← List.toFinset_card_of_nodup ((C.peers_nodup i).sublist hsub)]
    refine Finset.card_le_card fun k hk => ?_
    obtain ⟨x, hx, rfl⟩ := List.mem_map.1 (List.mem_toFinset.1 hk)
    obtain ⟨hx, hfalse⟩ := List.mem_filter.1 hx
    exact h.lost x hx (of_decide_eq_true hfalse)
  have hcount : c.slots.countP (fun x => x.2 = some true) + lost.length = c.slots.length := by
    have hnot : c.slots.countP (fun x => x.2 = some false) =
        c.slots.countP fun x => ¬ (x.2 = some true) := by
      refine List.countP_congr fun x hx => ?_
      have hsome := List.all_eq_true.1 hresolved x hx
      rcases x with ⟨k, _ | _ | _⟩ <;> simp_all
    rw [hlost, List.length_map, ← List.countP_eq_length_filter, hnot,
      List.length_eq_countP_add_countP fun x : N × Option Bool => decide (x.2 = some true)]
    simp
  have hlength : c.slots.length = (C.peers i).length := by
    rw [← h.peers, List.length_map]
  rw [Campaign.won, hasMajority, decide_eq_true_iff, Campaign.totalNodes, Campaign.votes]
  omega

/-- Its own conclusion promotes the candidate. -/
theorem conclude_own (h : Campaigning C i t D c s) (hD : 2 * D.card < (C.peers i).length + 1)
    (hs : s.step C (.conclude c) = some (s', es)) :
    es = [.concluded i t true, .promoted i t] ∧ (s'.leadership i).role = .primary ∧
      ∀ c' ∈ s'.campaigns, ¬ (c'.node = i ∧ c'.term = t) := by
  obtain ⟨rest, hperm, hrest⟩ := h.campaigns
  obtain ⟨rfl, rfl, hcaller⟩ := h.candidate
  simp only [ClusterState.step] at hs
  split_ifs at hs with hc
  have hwon := h.won_of_resolved hD hc.2
  have hrole : ¬ ((({ s with campaigns := s.campaigns.erase c } : ClusterState N)).leadership
      c.node).role = .primary := by
    intro hp
    have hreplica := h.standing.role
    rw [show s.leadership c.node = ({ s with campaigns := s.campaigns.erase c } :
      ClusterState N).leadership c.node from rfl, hp] at hreplica
    simp at hreplica
  simp only [hcaller, acted_of_won hwon hrole, hwon, Option.some.injEq, Prod.mk.injEq] at hs
  obtain ⟨rfl, rfl⟩ := hs
  refine ⟨rfl, ?_, fun c' hc' => ?_⟩
  · change (((ClusterState.setInFlight _ _ _).setLeadership _ _).leadership c.node).role = _
    rw [ClusterState.leadership_setLeadership, Function.update_self]
  · have hrest' : c' ∈ rest := by
      have herase : (s.campaigns.erase c).Perm rest := by simpa using hperm.erase c
      exact herase.mem_iff.1 hc'
    have hlt := (hrest c' hrest').1
    rintro ⟨-, hterm⟩
    omega

/-! ## Progress -/

/-- The slots that are open. -/
def openSlots (c : Campaign N) : ℕ := c.slots.countP fun x => x.2 = none

theorem openSlots_resolve_lt {peer : N} {grant : Bool} (hopen : (peer, none) ∈ c.slots) :
    openSlots (c.resolve peer grant) < openSlots c := by
  have hleft : openSlots (c.resolve peer grant) =
      (c.slots.filter fun x => ¬ x.1 = peer).countP fun x => x.2 = none := by
    rw [openSlots, Campaign.resolve, List.countP_map, List.countP_filter]
    refine List.countP_congr fun x _ => ?_
    rcases x with ⟨k, _ | v⟩ <;> by_cases hk : k = peer <;> simp [hk]
  have hpeer : 0 < (c.slots.filter fun x => x.1 = peer).countP fun x => x.2 = none :=
    List.countP_pos_iff.2 ⟨_, List.mem_filter.2 ⟨hopen, decide_eq_true rfl⟩, rfl⟩
  rw [hleft, openSlots, List.countP_eq_countP_filter_add c.slots _ fun x => decide (x.1 = peer)]
  simp only [decide_not] at hpeer ⊢
  omega

omit [DecidableEq N] in
theorem exists_open (hc : ¬ c.resolved = true) : ∃ peer, (peer, none) ∈ c.slots := by
  rw [Campaign.resolved, List.all_eq_true] at hc
  push Not at hc
  obtain ⟨⟨peer, v⟩, hx, hv⟩ := hc
  cases v with
  | none => exact ⟨peer, hx⟩
  | some v => simp at hv

/-- The vote that is on its way is counted. -/
theorem receive (h : Campaigning C i t D c s) {r : VoteReply N} (hr : r ∈ s.replies)
    (hri : r.receiver = i) (hrt : r.requested = t) (hopen : (r.sender, none) ∈ c.slots) :
    ∃ c' s' es, s.step C (.receiveReply r) = some (s', es) ∧ Campaigning C i t D c' s' ∧
      openSlots c' < openSlots c := by
  obtain ⟨s', es, hs⟩ : ∃ s' es, s.step C (.receiveReply r) = some (s', es) := by
    simp only [ClusterState.step, if_pos hr]
    exact ⟨_, _, rfl⟩
  obtain ⟨c', hc', heq⟩ := h.reply hs
  refine ⟨c', s', es, hs, hc', ?_⟩
  rw [heq hri hrt]
  exact openSlots_resolve_lt hopen

/-- Whatever has happened, the candidate can still be promoted. -/
theorem promotable (h : Campaigning C i t D c s) (hname : C.candidateId i ≠ [])
    (hD : 2 * D.card < (C.peers i).length + 1) :
    ∃ log s', ClusterRun C (Uncontested i D) s log s' ∧ .promoted i t ∈ log ∧
      (s'.leadership i).role = .primary := by
  induction hn : openSlots c using Nat.strong_induction_on generalizing c s with
  | _ n ih =>
    obtain ⟨rest, hperm, -⟩ := h.campaigns
    have hc : c ∈ s.campaigns := hperm.mem_iff.2 List.mem_cons_self
    by_cases hres : c.resolved = true
    · obtain ⟨s', es, hs⟩ : ∃ s' es, s.step C (.conclude c) = some (s', es) := by
        simp only [ClusterState.step, hc, hres, and_self, if_true, h.candidate.2.2]
        exact ⟨_, _, rfl⟩
      obtain ⟨rfl, hrole, -⟩ := h.conclude_own hD hs
      have hP : Uncontested i D s (.conclude c) := trivial
      exact ⟨_, s', Run.start.next _ hP hs, by simp, hrole⟩
    · obtain ⟨peer, hopen⟩ := exists_open hres
      have hvote : ∃ log s₁, ClusterRun C (Uncontested i D) s log s₁ ∧ Campaigning C i t D c s₁ ∧
          ∃ r ∈ s₁.replies, r.sender = peer ∧ r.receiver = i ∧ r.requested = t := by
        rcases h.pending _ hopen rfl with hm | hr
        · obtain ⟨s₁, es, hs⟩ : ∃ s₁ es,
              s.step C (.receiveRequest (requestOf C i t peer)) = some (s₁, es) := by
            simp only [ClusterState.step, if_pos hm]
            exact ⟨_, _, rfl⟩
          obtain ⟨h₁, hr⟩ := h.request hname hs
          have hP : Uncontested i D s (.receiveRequest (requestOf C i t peer)) := trivial
          exact ⟨_, s₁, Run.start.next _ hP hs, h₁, hr⟩
        · exact ⟨[], s, .start, h, hr⟩
      obtain ⟨log, s₁, hrun, h₁, r, hr, rfl, hri, hrt⟩ := hvote
      obtain ⟨c', s₂, es, hs, h₂, hlt⟩ := h₁.receive hr hri hrt hopen
      obtain ⟨log', s', hrun', hpromoted, hrole⟩ := ih _ (hn ▸ hlt) h₂ rfl
      have hP : Uncontested i D s₁ (.receiveReply r) := trivial
      exact ⟨_, s', (hrun.next _ hP hs).trans hrun', List.mem_append_right _ hpromoted, hrole⟩

/-- A step goes on with the campaign, or concludes it. -/
theorem step (h : Campaigning C i t D c s) (hname : C.candidateId i ≠ [])
    (hP : Uncontested i D s a) (hs : s.step C a = some (s', es)) :
    (∃ c', Campaigning C i t D c' s') ∧ (∀ won, .concluded i t won ∉ es) ∨ a = .conclude c := by
  cases a with
  | campaignForPrimary | runElection => exact hP.elim
  | receiveRequest m =>
    refine .inl ⟨⟨c, (h.request hname hs).1⟩, fun won hw => ?_⟩
    cases clusterStep hs with
    | stand _ _ _ ha => simp at ha
    | request => split_ifs at hw <;> simp at hw
  | receiveReply m =>
    obtain ⟨c', hc', -⟩ := h.reply hs
    refine .inl ⟨⟨c', hc'⟩, fun won hw => ?_⟩
    cases clusterStep hs with
    | stand _ _ _ ha => simp at ha
    | reply => simp at hw
  | giveUp c₀ peer =>
    refine .inl ⟨h.giveUp hP hs, fun won hw => ?_⟩
    cases clusterStep hs with
    | stand _ _ _ ha => simp at ha
    | giveUp => simp at hw
  | conclude c₀ =>
    by_cases hc₀ : c₀ = c
    · exact .inr (hc₀ ▸ rfl)
    · obtain ⟨hc, hno⟩ := h.conclude_other hc₀ hs
      exact .inl ⟨⟨c, hc⟩, hno⟩
  | receiveLeader m =>
    refine .inl ⟨⟨c, h.leader hs⟩, fun won hw => ?_⟩
    cases clusterStep hs with
    | stand _ _ _ ha => simp at ha
    | leader => split_ifs at hw <;> simp at hw
  | promote j urls =>
    refine .inl ⟨⟨c, h.promote hP hs⟩, fun won hw => ?_⟩
    cases clusterStep hs with
    | stand _ _ _ ha => simp at ha
    | manual => simp at hw

end Campaigning

/-- The campaign goes on, or it has promoted its candidate. -/
def Decided (C : ClusterConfig N) (i : N) (t : ℤ) (D : Finset N) (log : List (ClusterEvent N))
    (s : ClusterState N) : Prop :=
  (∃ c, Campaigning C i t D c s) ∧ (∀ won, .concluded i t won ∉ log) ∨
    (∀ won, .concluded i t won ∈ log → won = true) ∧ .promoted i t ∈ log ∧
      ∀ c ∈ s.campaigns, ¬ (c.node = i ∧ c.term = t)

/-- Once concluded, the campaign is not concluded again. -/
theorem concluded_once (hP : Uncontested i D s a) (hs : ClusterStep C s a s' es)
    (hnone : ∀ c ∈ s.campaigns, ¬ (c.node = i ∧ c.term = t)) :
    (∀ won, .concluded i t won ∉ es) ∧ ∀ c ∈ s'.campaigns, ¬ (c.node = i ∧ c.term = t) := by
  cases hs with
  | stand k caller b ha =>
    rcases ha with rfl | rfl
    · exact hP.elim
    · exact hP.elim
  | request => exact ⟨fun won hw => by split_ifs at hw <;> simp at hw, hnone⟩
  | reply m =>
    refine ⟨by simp, fun c hc => ?_⟩
    obtain ⟨c', hc', rfl⟩ := List.mem_map.1 hc
    split_ifs
    · exact hnone c' hc'
    · exact hnone c' hc'
  | giveUp c peer hc =>
    exact ⟨by simp, List.forall_mem_cons.2 ⟨hnone c hc,
      fun c' hc' => hnone c' (List.mem_of_mem_erase hc')⟩⟩
  | concluded c hc b =>
    refine ⟨fun won hw => hnone c hc ?_, fun c' hc' => hnone c' (List.mem_of_mem_erase hc')⟩
    simp only [List.mem_singleton, ClusterEvent.concluded.injEq] at hw
    exact ⟨hw.1.symm, hw.2.1.symm⟩
  | promoted c hc =>
    refine ⟨fun won hw => hnone c hc ?_, fun c' hc' => hnone c' (List.mem_of_mem_erase hc')⟩
    simp only [List.mem_cons, List.not_mem_nil, or_false, ClusterEvent.concluded.injEq,
      reduceCtorEq] at hw
    exact ⟨hw.1.symm, hw.2.1.symm⟩
  | leader => exact ⟨fun won hw => by split_ifs at hw <;> simp at hw, hnone⟩
  | manual => exact ⟨by simp, hnone⟩

theorem Decided.step (h : Decided C i t D log s) (hname : C.candidateId i ≠ [])
    (hD : 2 * D.card < (C.peers i).length + 1) (hP : Uncontested i D s a)
    (hs : s.step C a = some (s', es)) : Decided C i t D (log ++ es) s' := by
  rcases h with ⟨⟨c, hc⟩, hno⟩ | ⟨hwon, hpromoted, hnone⟩
  · rcases hc.step hname hP hs with ⟨hc', hes⟩ | rfl
    · refine .inl ⟨hc', fun won hw => ?_⟩
      rcases List.mem_append.1 hw with hw | hw
      · exact hno won hw
      · exact hes won hw
    · obtain ⟨rfl, -, hnone⟩ := hc.conclude_own hD hs
      refine .inr ⟨fun won hw => ?_, by simp, hnone⟩
      rcases List.mem_append.1 hw with hw | hw
      · exact absurd hw (hno won)
      · simpa using hw
  · obtain ⟨hes, hnone'⟩ := concluded_once hP (clusterStep hs) hnone
    refine .inr ⟨fun won hw => ?_, List.mem_append_left _ hpromoted, hnone'⟩
    rcases List.mem_append.1 hw with hw | hw
    · exact hwon won hw
    · exact absurd hw (hes won)

/-- In any state that is reached, a replica stands for election that no node is ahead of. As long as
nobody else stands and its campaign gives up less than half of the cluster, the campaign is not
lost in any interleaving; and until it has promoted its candidate, it still can. -/
theorem uncontested_campaign_wins {P : ClusterState N → ClusterAction N → Prop} {role : N → Role}
    {primaryUrl : N → Option JsString} {replicaUrls : N → List JsString}
    (h : ClusterRun C P (.boot C role primaryUrl replicaUrls) log s)
    (hname : C.candidateId i ≠ []) (hrole : (s.leadership i).role = .replica)
    (hlatest : ∀ j, (s.ballot j).term ≤ (s.ballot i).term)
    (hD : 2 * D.card < (C.peers i).length + 1) {s₁ s₂ : ClusterState N}
    {es log' : List (ClusterEvent N)}
    (hstand : s.step C (.campaignForPrimary i) = some (s₁, es))
    (hrun : ClusterRun C (Uncontested i D) s₁ log' s₂) :
    (∀ won, .concluded i ((s.ballot i).term + 1) won ∈ log' →
      won = true ∧ .promoted i ((s.ballot i).term + 1) ∈ log') ∧
    (.promoted i ((s.ballot i).term + 1) ∈ log' ∨ ∃ log'' s₃,
      ClusterRun C (Uncontested i D) s₂ log'' s₃ ∧ .promoted i ((s.ballot i).term + 1) ∈ log'' ∧
        (s₃.leadership i).role = .primary) := by
  have hguarded : Guarded s := by
    refine h.invariant (I := fun _ s => Guarded s) (fun j => ?_) fun hI _ hs => hI.step hs
    simp [ClusterState.boot]
  have hself : ∀ j, (s.leadership j).election.selfId = C.candidateId j := by
    refine h.invariant (I := fun _ s => ∀ j, (s.leadership j).election.selfId = C.candidateId j)
      (fun j => rfl) fun hI _ hs => ?_
    obtain ⟨k, l, hl, hn⟩ := (clusterStep hs).node
    exact selfId_step hn hl hI
  simp only [ClusterState.step] at hstand
  split_ifs at hstand with hidle
  obtain ⟨rfl, rfl⟩ := Prod.mk.inj (Option.some.inj hstand)
  have hstart : Decided C i ((s.ballot i).term + 1) D []
      ((s.setInFlight i true).stand C i .campaignForPrimary).1 :=
    .inl ⟨⟨_, .stand (bounded_of_run h) hguarded (Bool.eq_false_of_not_eq_true hidle) hrole
      (hself i) hlatest true⟩, by simp⟩
  have hdecided : Decided C i ((s.ballot i).term + 1) D log' s₂ :=
    hrun.invariant (I := fun log s => Decided C i _ D log s) hstart
      fun hI hP hs => hI.step hname hD hP hs
  rcases hdecided with ⟨⟨c, hc⟩, hno⟩ | ⟨hwon, hpromoted, -⟩
  · exact ⟨fun won hw => absurd hw (hno won), .inr (hc.promotable hname hD)⟩
  · exact ⟨fun won hw => ⟨hwon won hw, hpromoted⟩, .inl hpromoted⟩

/-- The first node stands after the second has lost an election, whose messages are still about; the
third is out of reach. -/
theorem uncontested_campaign_wins_reachable : ∃ (s s₁ s₂ : ClusterState (Fin 3))
    (es log' : List (ClusterEvent (Fin 3))),
    s.requests ≠ [] ∧ s.step threeNodes (.campaignForPrimary 0) = some (s₁, es) ∧
    ClusterRun threeNodes (Uncontested 0 {2}) s₁ log' s₂ ∧ .concluded 0 2 true ∈ log' ∧
    .promoted 0 2 ∈ log' := by
  have hrun : ∃ (log : List (ClusterEvent (Fin 3))) (s : ClusterState (Fin 3)),
      ClusterRun threeNodes (fun _ _ => True)
        (.boot threeNodes (fun _ => .replica) (fun _ => none) (fun _ => [])) log s ∧
      s.requests ≠ [] ∧ (s.leadership 0).role = .replica ∧ (s.ballot 0).term = 1 ∧
      (∀ j, (s.ballot j).term ≤ (s.ballot 0).term) ∧
      ((s.step threeNodes (.campaignForPrimary 0)).any fun r =>
        (exec (ClusterState.step threeNodes) (Uncontested 0 {2}) [] r.1 [
          .receiveRequest ⟨0, 1, 2, js "http://a"⟩,
          .receiveRequest ⟨1, 2, 1, js "http://b"⟩,
          .receiveReply ⟨1, 0, 2, .voted ⟨true, 2⟩⟩,
          .giveUp ⟨0, 2, .campaignForPrimary, [(1, some true), (2, none)]⟩ 2,
          .conclude ⟨0, 2, .campaignForPrimary, [(1, some true), (2, some false)]⟩]).any
          fun r' => decide (.concluded 0 2 true ∈ r'.1)) = true :=
    exists_run_of_exec [
      .campaignForPrimary 1,
      .receiveRequest ⟨1, 0, 1, js "http://b"⟩,
      .giveUp ⟨1, 1, .campaignForPrimary, [(0, none), (2, none)]⟩ 0,
      .giveUp ⟨1, 1, .campaignForPrimary, [(0, some false), (2, none)]⟩ 2,
      .conclude ⟨1, 1, .campaignForPrimary, [(0, some false), (2, some false)]⟩]
      (by decide +kernel)
  obtain ⟨log, s, h, hlate, hrole, hterm, hlatest, hsteps⟩ := hrun
  obtain ⟨⟨s₁, es⟩, hstand, hsteps⟩ := (Option.any_eq_true _ _).1 hsteps
  obtain ⟨⟨log', s₂⟩, hexec, hconcluded⟩ := (Option.any_eq_true _ _).1 hsteps
  have hrun' : ClusterRun threeNodes (Uncontested 0 {2}) s₁ log' s₂ := run_of_exec _ .start hexec
  have hwin := (uncontested_campaign_wins h (by decide) hrole hlatest (by decide) hstand hrun').1
    true
  rw [hterm] at hwin
  have hmem : .concluded 0 2 true ∈ log' := of_decide_eq_true hconcluded
  exact ⟨s, s₁, s₂, es, log', hlate, hstand, hrun', hmem, (hwin hmem).2⟩

end InkCache
