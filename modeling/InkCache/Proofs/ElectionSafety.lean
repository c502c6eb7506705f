import InkCache.Proofs.Cluster

/-!
# At most one winner a term

A vote is an event of the log. Its voter's ballot holds it from then on, so it is the voter's only
vote of the term (`Votes`); every grant on its way, every filled slot and every win is backed by
votes (`Evidence`). Two winners of one term then share a voter.
-/

namespace InkCache

open Lib

variable {N : Type} {C : ClusterConfig N} {log es : List (ClusterEvent N)} {i j v : N} {t : ℤ}
  {a : ClusterAction N}

/-! ## Votes -/

section Votes

variable [DecidableEq N] {s s' : ClusterState N}

section NodeStep

variable {l : Leadership} (hn : NodeStep C a i (s.leadership i) l es)
  (hl : s'.leadership = Function.update s.leadership i l)

include hn hl

/-- No node takes a vote back. -/
theorem ballot_advances (v : N) : (s.ballot v).Advances (s'.ballot v) := by
  unfold ClusterState.ballot
  rw [hl]
  by_cases hv : v = i
  · subst hv
    rw [Function.update_self]
    exact hn.advances
  · rw [Function.update_of_ne hv]
    exact .refl _

theorem ballot_of_voted (hself : ∀ i, (s.leadership i).election.selfId = C.candidateId i)
    {c : JsString} (hv : Voted C es v t c) : s'.ballot v = ⟨t, some c⟩ := by
  obtain ⟨rfl, hb⟩ := hn.voted (hself i) hv
  unfold ClusterState.ballot
  rw [hl, Function.update_self, hb]

theorem selfId_step (hself : ∀ i, (s.leadership i).election.selfId = C.candidateId i) (j : N) :
    (s'.leadership j).election.selfId = C.candidateId j := by
  rw [hl]
  by_cases hj : j = i
  · subst hj
    rw [Function.update_self, hn.selfId, hself]
  · rw [Function.update_of_ne hj, hself]

end NodeStep

/-- A vote is held by its voter's ballot, and is the only one of its term. -/
structure Votes (C : ClusterConfig N) (log : List (ClusterEvent N)) (s : ClusterState N) :
    Prop where
  selfId : ∀ i, (s.leadership i).election.selfId = C.candidateId i
  holds : ∀ v t c, Voted C log v t c → (s.ballot v).Holds t c
  single : ∀ v t c c', Voted C log v t c → Voted C log v t c' → c = c'

theorem Votes.step (h : Votes C log s) (hs : ClusterStep C s a s' es) :
    Votes C (log ++ es) s' := by
  obtain ⟨i, l, hl, hn⟩ := hs.node
  have hholds : ∀ v t c, Voted C (log ++ es) v t c → (s'.ballot v).Holds t c := by
    intro v t c hv
    rcases voted_append.1 hv with hv | hv
    · exact (h.holds v t c hv).advances (ballot_advances hn hl v)
    · rw [ballot_of_voted hn hl h.selfId hv]
      exact Ballot.holds_self rfl
  refine ⟨selfId_step hn hl h.selfId, hholds, fun v t c c' hc hc' => ?_⟩
  rcases voted_append.1 hc with ho | hnw
  · rcases voted_append.1 hc' with ho' | hnw'
    · exact h.single v t c c' ho ho'
    · have hh := hholds v t c hc
      rw [ballot_of_voted hn hl h.selfId hnw'] at hh
      exact hh.unique (Ballot.holds_self rfl)
  · have hh := hholds v t c' hc'
    rw [ballot_of_voted hn hl h.selfId hnw] at hh
    exact (hh.unique (Ballot.holds_self rfl)).symm

end Votes

/-! ## Campaigns -/

/-- Of the slots of a campaign, those filled with a vote are backed by one. -/
structure Backed (C : ClusterConfig N) (log : List (ClusterEvent N)) (c : Campaign N) : Prop where
  slots : c.slots.map Prod.fst = C.peers c.node
  started : .started c.node c.term ∈ log
  votes : ∀ j, (j, some true) ∈ c.slots → Voted C log j c.term (C.candidateId c.node)

/-- A campaign starts with no vote but the candidate's own. -/
theorem backed_started {caller : Caller} : Backed C (log ++ [.started i t])
    { node := i, term := t, caller, slots := (C.peers i).map (·, none) } where
  slots := by simp [Function.comp_def]
  started := by simp
  votes j hj := by simp at hj

theorem Backed.append {c : Campaign N} (h : Backed C log c) : Backed C (log ++ es) c where
  slots := h.slots
  started := List.mem_append_left _ h.started
  votes j hj := voted_append.2 (.inl (h.votes j hj))

theorem Backed.resolve [DecidableEq N] {c : Campaign N} {peer : N} {grant : Bool}
    (h : Backed C log c) (hg : grant = true → Voted C log peer c.term (C.candidateId c.node)) :
    Backed C log (c.resolve peer grant) where
  slots := by
    refine Eq.trans ?_ h.slots
    simp only [Campaign.resolve, List.map_map]
    refine List.map_congr_left fun x _ => ?_
    simp only [Function.comp_apply]
    split_ifs <;> rfl
  started := h.started
  votes j hj := by
    simp only [Campaign.resolve, List.mem_map] at hj
    obtain ⟨x, hx, hxj⟩ := hj
    split_ifs at hxj with hopen
    · simp only [Prod.mk.injEq, Option.some.injEq] at hxj
      obtain ⟨rfl, rfl⟩ := hxj
      rw [hopen.1]
      exact hg rfl
    · exact h.votes j (hxj ▸ hx)

/-! ## Majorities of the nodes -/

variable [Fintype N]

def WonBy (C : ClusterConfig N) (log : List (ClusterEvent N)) (i : N) (t : ℤ) : Prop :=
  ∃ Q : Finset N, Majority Q ∧ ∀ v ∈ Q, Voted C log v t (C.candidateId i)

theorem WonBy.append (h : WonBy C log i t) : WonBy C (log ++ es) i t := by
  obtain ⟨Q, hQ, hv⟩ := h
  exact ⟨Q, hQ, fun v hvQ => voted_append.2 (.inl (hv v hvQ))⟩

theorem card_nodes (C : ClusterConfig N) (i : N) : Fintype.card N = (C.peers i).length + 1 := by
  classical
  have hset : (C.peers i).toFinset = Finset.univ.erase i := by
    ext j
    simp [C.mem_peers]
  have hcard := congrArg Finset.card hset
  rw [List.toFinset_card_of_nodup (C.peers_nodup i), Finset.card_erase_of_mem (Finset.mem_univ i),
    Finset.card_univ] at hcard
  have hpos : 0 < Fintype.card N := Fintype.card_pos_iff.2 ⟨i⟩
  omega

/-- The votes a campaign counts are those of different nodes. -/
theorem Backed.wonBy {c : Campaign N} (h : Backed C log c) (hwon : c.won = true) :
    WonBy C log c.node c.term := by
  classical
  set granted := (c.slots.filter fun x => x.2 = some true).map Prod.fst with hgranted
  have hsub : granted.Sublist (C.peers c.node) := h.slots ▸ List.filter_sublist.map _
  have hnode : c.node ∉ granted.toFinset := fun hm =>
    (C.mem_peers c.node c.node).1 (hsub.subset (List.mem_toFinset.1 hm)) rfl
  refine ⟨insert c.node granted.toFinset, ?_, fun v hv => ?_⟩
  · have hcount : granted.length = c.slots.countP fun x => x.2 = some true := by
      rw [hgranted, List.length_map, List.countP_eq_length_filter]
    have hlen : c.slots.length = (C.peers c.node).length := by rw [← h.slots, List.length_map]
    have hcard := card_nodes C c.node
    unfold Majority
    rw [Finset.card_insert_of_notMem hnode,
      List.toFinset_card_of_nodup ((C.peers_nodup c.node).sublist hsub), hcount]
    have hmaj : c.totalNodes < 2 * c.votes := of_decide_eq_true hwon
    unfold Campaign.totalNodes Campaign.votes at hmaj
    omega
  · rcases Finset.mem_insert.1 hv with rfl | hv
    · exact .inr ⟨h.started, rfl⟩
    · obtain ⟨⟨j, g⟩, hx, rfl⟩ := List.mem_map.1 (List.mem_toFinset.1 hv)
      obtain ⟨hx, hg⟩ := List.mem_filter.1 hx
      obtain rfl : g = some true := by simpa using hg
      exact h.votes j hx

/-! ## Evidence -/

variable {s s' : ClusterState N}

structure Evidence (C : ClusterConfig N) (log : List (ClusterEvent N)) (s : ClusterState N) :
    Prop where
  requests : ∀ m ∈ s.requests, m.candidateId = C.candidateId m.sender
  replies : ∀ m ∈ s.replies, m.response.grants = true →
    Voted C log m.sender m.requested (C.candidateId m.receiver)
  campaigns : ∀ c ∈ s.campaigns, Backed C log c
  won : ∀ i t, .concluded i t true ∈ log → WonBy C log i t
  announcements : ∀ m ∈ s.announcements, .concluded m.sender m.term true ∈ log ∧
    m.primaryUrl = C.candidateId m.sender
  adopted : ∀ v t url, .adopted v t url ∈ log →
    ∃ i, .concluded i t true ∈ log ∧ url = C.candidateId i

/-- Evidence stays where the log grows by wins and adoptions that have some. -/
theorem Evidence.append (h : Evidence C log s)
    (hwon : ∀ i t, .concluded i t true ∈ es → WonBy C log i t)
    (hadopted : ∀ v t url, .adopted v t url ∈ es →
      ∃ i, .concluded i t true ∈ log ∧ url = C.candidateId i) : Evidence C (log ++ es) s where
  requests := h.requests
  replies m hm hg := voted_append.2 (.inl (h.replies m hm hg))
  campaigns c hc := (h.campaigns c hc).append
  won i t hw := by
    rcases List.mem_append.1 hw with hw | hw
    · exact (h.won i t hw).append
    · exact (hwon i t hw).append
  announcements m hm :=
    ⟨List.mem_append_left _ (h.announcements m hm).1, (h.announcements m hm).2⟩
  adopted v t url ha := by
    have hold : ∃ i, .concluded i t true ∈ log ∧ url = C.candidateId i := by
      rcases List.mem_append.1 ha with ha | ha
      · exact h.adopted v t url ha
      · exact hadopted v t url ha
    obtain ⟨i, hi, hu⟩ := hold
    exact ⟨i, List.mem_append_left _ hi, hu⟩

theorem Evidence.append_concluded (h : Evidence C log s) {c : Campaign N} (hc : c ∈ s.campaigns)
    (hes : ∀ e ∈ es, e = .concluded c.node c.term c.won ∨ e = .promoted c.node c.term) :
    Evidence C (log ++ es) s := by
  refine h.append (fun i t hw => ?_) fun v t url ha => ?_
  · rcases hes _ hw with he | he
    · simp only [ClusterEvent.concluded.injEq] at he
      obtain ⟨rfl, rfl, hwon⟩ := he
      exact (h.campaigns c hc).wonBy hwon.symm
    · simp at he
  · rcases hes _ ha with he | he <;> simp at he

theorem Evidence.winner_unique
    (hsingle : ∀ v t c c', Voted C log v t c → Voted C log v t c' → c = c') (he : Evidence C log s)
    (hi : .concluded i t true ∈ log) (hj : .concluded j t true ∈ log) : i = j := by
  obtain ⟨Q, hQ, hvi⟩ := he.won i t hi
  obtain ⟨Q', hQ', hvj⟩ := he.won j t hj
  exact C.candidateId_injective
    (majority_unique (fun v c c' => hsingle v t c c') hQ hQ' hvi hvj)

variable [DecidableEq N]

theorem Evidence.step (h : Evidence C log s) (hs : ClusterStep C s a s' es) :
    Evidence C (log ++ es) s' := by
  cases hs with
  | stand i caller b ha =>
    have hst : Evidence C (log ++ [.started i ((s.leadership i).election.currentTerm + 1)]) s :=
      h.append (by simp) (by simp)
    refine ⟨fun m hm => ?_, hst.replies, fun c hc => ?_, hst.won, hst.announcements, hst.adopted⟩
    · rcases List.mem_append.1 hm with hm | hm
      · exact hst.requests m hm
      · obtain ⟨j, -, rfl⟩ := List.mem_map.1 hm
        rfl
    · rcases List.mem_cons.1 hc with rfl | hc
      · have hl : ((s.setInFlight i b).nodes i).leadership = s.leadership i :=
          congrFun (ClusterState.leadership_setInFlight b) i
        rw [hl]
        exact backed_started
      · exact hst.campaigns c hc
  | @request m hm r l granted hr hb hl =>
    have hst : Evidence C (log ++
        if granted then [.granted m.receiver m.term m.candidateId] else []) s :=
      h.append (by split_ifs <;> simp) (by split_ifs <;> simp)
    refine ⟨fun m' hm' => hst.requests m' (List.mem_of_mem_erase hm'), fun m' hm' hg => ?_,
      hst.campaigns, hst.won, hst.announcements, hst.adopted⟩
    rcases List.mem_cons.1 hm' with rfl | hm'
    · refine voted_append.2 (.inr (.inl ?_))
      rw [if_pos (hb.symm.trans hg), hr.1, hr.2.1, hr.2.2, ← h.requests m hm]
      exact List.mem_singleton_self _
    · exact hst.replies m' hm' hg
  | reply m hm =>
    rw [List.append_nil]
    refine ⟨h.requests, fun m' hm' => h.replies m' (List.mem_of_mem_erase hm'), fun c hc => ?_,
      h.won, h.announcements, h.adopted⟩
    obtain ⟨c, hc', rfl⟩ := List.mem_map.1 hc
    split_ifs with hfor
    · refine (h.campaigns c hc').resolve fun hg => ?_
      rw [hfor.1, hfor.2]
      exact h.replies m hm hg
    · exact h.campaigns c hc'
  | giveUp c peer hc =>
    rw [List.append_nil]
    refine ⟨h.requests, h.replies, fun c' hc' => ?_, h.won, h.announcements, h.adopted⟩
    rcases List.mem_cons.1 hc' with rfl | hc'
    · exact (h.campaigns c hc).resolve (by simp)
    · exact h.campaigns c' (List.mem_of_mem_erase hc')
  | concluded c hc b =>
    have hst : Evidence C (log ++ [.concluded c.node c.term c.won]) s :=
      h.append_concluded hc (by simp)
    exact ⟨hst.requests, hst.replies, fun c' hc' => hst.campaigns c' (List.mem_of_mem_erase hc'),
      hst.won, hst.announcements, hst.adopted⟩
  | promoted c hc hwon urls =>
    have hst : Evidence C (log ++ [.concluded c.node c.term true, .promoted c.node c.term]) s :=
      h.append_concluded hc (by simp [hwon])
    refine ⟨hst.requests, hst.replies, fun c' hc' => hst.campaigns c' (List.mem_of_mem_erase hc'),
      hst.won, fun m hm => ?_, hst.adopted⟩
    rcases List.mem_append.1 hm with hm | hm
    · exact hst.announcements m hm
    · obtain ⟨j, -, rfl⟩ := List.mem_map.1 hm
      exact ⟨by simp, rfl⟩
  | @leader m hm l adopted hl =>
    have hst : Evidence C (log ++
        if adopted then [.adopted m.receiver m.term m.primaryUrl] else []) s := by
      refine h.append (by split_ifs <;> simp) fun v t url ha => ?_
      rcases adopted
      · simp at ha
      · simp only [if_true, List.mem_singleton, ClusterEvent.adopted.injEq] at ha
        obtain ⟨rfl, rfl, rfl⟩ := ha
        exact ⟨m.sender, h.announcements m hm⟩
    exact ⟨hst.requests, hst.replies, hst.campaigns, hst.won,
      fun m' hm' => hst.announcements m' (List.mem_of_mem_erase hm'), hst.adopted⟩
  | manual i urls =>
    rw [List.append_nil]
    exact ⟨h.requests, h.replies, h.campaigns, h.won, h.announcements, h.adopted⟩

/-! ## Safety -/

theorem votes_evidence {P : ClusterState N → ClusterAction N → Prop} {role : N → Role}
    {primaryUrl : N → Option JsString} {replicaUrls : N → List JsString}
    (h : ClusterRun C P (.boot C role primaryUrl replicaUrls) log s) :
    Votes C log s ∧ Evidence C log s := by
  refine h.invariant (I := fun log s => Votes C log s ∧ Evidence C log s) ⟨?_, ?_⟩ ?_
  · exact ⟨fun i => rfl, by simp [Voted], by simp [Voted]⟩
  · constructor <;> simp [ClusterState.boot]
  · rintro log s a s' es ⟨hv, he⟩ - hstep
    exact ⟨hv.step (clusterStep hstep), he.step (clusterStep hstep)⟩

/-- Over every run, whatever the roles the nodes start in: one node at most wins a term, and all
who adopt a winner of the term adopt the same. -/
theorem election_safety (C : ClusterConfig N) (role : N → Role)
    (primaryUrl : N → Option JsString) (replicaUrls : N → List JsString)
    (h : ClusterRun C (fun _ _ => True) (.boot C role primaryUrl replicaUrls) log s) :
    (∀ t i j, .concluded i t true ∈ log → .concluded j t true ∈ log → i = j) ∧
    ∀ t v v' url url', .adopted v t url ∈ log → .adopted v' t url' ∈ log → url = url' := by
  obtain ⟨hv, he⟩ := votes_evidence h
  refine ⟨fun t i j hi hj => he.winner_unique hv.single hi hj, fun t v v' url url' ha ha' => ?_⟩
  obtain ⟨i, hi, rfl⟩ := he.adopted v t url ha
  obtain ⟨j, hj, rfl⟩ := he.adopted v' t url' ha'
  rw [he.winner_unique hv.single hi hj]

/-- Two nodes stand in the same term; the third makes one of them the winner. -/
theorem election_safety_contested : ∃ (log : List (ClusterEvent (Fin 3)))
    (s : ClusterState (Fin 3)),
    ClusterRun threeNodes (fun _ _ => True)
      (.boot threeNodes (fun _ => .replica) (fun _ => none) (fun _ => [])) log s ∧
    .concluded 0 1 true ∈ log ∧ .adopted 1 1 (js "http://a") ∈ log ∧
    (∀ j, .concluded j 1 true ∈ log → j = 0) ∧
    ∀ v url, .adopted v 1 url ∈ log → url = js "http://a" := by
  have hrun : ∃ (log : List (ClusterEvent (Fin 3))) (s : ClusterState (Fin 3)),
      ClusterRun threeNodes (fun _ _ => True)
        (.boot threeNodes (fun _ => .replica) (fun _ => none) (fun _ => [])) log s ∧
      .concluded 0 1 true ∈ log ∧ .concluded 1 1 false ∈ log ∧
      .adopted 1 1 (js "http://a") ∈ log :=
    exists_run_of_exec [
      .campaignForPrimary 0,
      .campaignForPrimary 1,
      .receiveRequest ⟨0, 2, 1, js "http://a"⟩,
      .receiveRequest ⟨1, 2, 1, js "http://b"⟩,
      .receiveRequest ⟨0, 1, 1, js "http://a"⟩,
      .receiveReply ⟨2, 0, 1, .voted ⟨true, 1⟩⟩,
      .receiveReply ⟨1, 0, 1, .voted ⟨false, 1⟩⟩,
      .receiveReply ⟨2, 1, 1, .voted ⟨false, 1⟩⟩,
      .giveUp ⟨1, 1, .campaignForPrimary, [(0, none), (2, some false)]⟩ 0,
      .conclude ⟨1, 1, .campaignForPrimary, [(0, some false), (2, some false)]⟩,
      .conclude ⟨0, 1, .campaignForPrimary, [(1, some false), (2, some true)]⟩,
      .receiveLeader ⟨0, 1, 1, js "http://a"⟩] (by decide +kernel)
  obtain ⟨log, s, h, hwin, -, had⟩ := hrun
  have hsafe := election_safety threeNodes _ _ _ h
  exact ⟨log, s, h, hwin, had, fun j hj => hsafe.1 1 j 0 hj hwin,
    fun v url hu => hsafe.2 1 v 1 url _ hu had⟩

end InkCache
