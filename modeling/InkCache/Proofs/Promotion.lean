import InkCache.Proofs.ElectionSafety

/-!
# Stale promotions

`campaignForPrimary` promotes a winner whatever has happened to it since it stood. As long as it is
still in the term it won (`InTerm`), a primary keeps the term it won until it steps down
(`Tenure`), and of two primaries the one of the smaller term has still to answer the other's
request. A node that has moved on in the meantime is promoted all the same.
-/

namespace InkCache

open Lib

variable {N : Type} {C : ClusterConfig N} {log es l₁ l₂ : List (ClusterEvent N)} {i j v : N} {t : ℤ}
  {a : ClusterAction N}

/-- The node granted a vote or adopted a leader in the term. -/
def Committed (log : List (ClusterEvent N)) (i : N) (t : ℤ) : Prop :=
  (∃ c, .granted i t c ∈ log) ∨ ∃ url, .adopted i t url ∈ log

/-- If the second event is a promotion, the first is no commitment of the node to a later term. -/
def NotPast (e e' : ClusterEvent N) : Prop :=
  ∀ i t t', e' = .promoted i t → Committed [e] i t' → t' ≤ t

theorem committed_append :
    Committed (log ++ es) i t ↔ Committed log i t ∨ Committed es i t := by
  simp only [Committed, List.mem_append, exists_or]
  tauto

theorem NodeStep.committed {n l : Leadership} (h : NodeStep C a i n l es)
    (hc : Committed es v t) : v = i ∧ l.election.currentTerm = t := by
  cases h with
  | idle | stand | concluded | promoted | manual => simp [Committed] at hc
  | request hl =>
    cases hl with
    | refused => simp [Committed] at hc
    | granted =>
      simp only [Committed, if_true, List.mem_singleton, ClusterEvent.granted.injEq, reduceCtorEq,
        exists_false, or_false] at hc
      obtain ⟨c, rfl, rfl, -⟩ := hc
      exact ⟨rfl, rfl⟩
  | leader hl =>
    cases hl with
    | refused => simp [Committed] at hc
    | adopted hle =>
      simp only [Committed, if_true, List.mem_singleton, ClusterEvent.adopted.injEq, reduceCtorEq,
        exists_false, false_or] at hc
      obtain ⟨url, rfl, rfl, -⟩ := hc
      exact ⟨rfl, observeTerm_term hle _⟩

/-- A node that is primary after a step was one in the same term before it, with the same vote,
or was promoted. -/
theorem NodeStep.primary {n l : Leadership} (h : NodeStep C a i n l es)
    (hstand : a = .campaignForPrimary i → n.role = .replica) (hrun : a ≠ .runElection i)
    (hmanual : ∀ urls, a ≠ .promote i urls) (hl : l.role = .primary) :
    (n.role = .primary ∧ l.election.currentTerm = n.election.currentTerm ∧
      ∀ c, n.election.votedFor = some c → l.election.votedFor = some c) ∨
    ∃ c : Campaign N, a = .conclude c ∧ c.node = i ∧ c.won = true ∧ l.election = n.election ∧
      .concluded i c.term true ∈ es := by
  cases h with
  | idle | concluded => exact .inl ⟨hl, rfl, fun c hc => hc⟩
  | stand ha =>
    rcases ha with ha | ha
    · have hn : n.role = .primary := hl
      rw [hstand ha] at hn
      simp at hn
    · exact absurd ha hrun
  | request hv =>
    cases hv with
    | refused => exact .inl ⟨hl, rfl, fun c hc => hc⟩
    | granted hne hle hfree role hrole =>
      obtain ⟨hn, ht⟩ := hrole hl
      refine .inl ⟨hn, ht.symm, fun c hc => ?_⟩
      rcases hfree ht with hv | hv
      · rw [hc] at hv
        simp at hv
      · rw [hc] at hv
        exact hv.symm
  | promoted c ha hi hwon urls => exact .inr ⟨c, ha, hi, hwon, rfl, by simp⟩
  | leader hv =>
    cases hv with
    | refused => exact .inl ⟨hl, rfl, fun c hc => hc⟩
    | adopted => simp at hl
  | manual urls ha => exact absurd ha (hmanual urls)

/-! ## Tenure -/

variable [DecidableEq N] {s s' : ClusterState N}

structure Tenure (C : ClusterConfig N) (log : List (ClusterEvent N)) (s : ClusterState N) :
    Prop where
  nonneg : ∀ i, 0 ≤ (s.leadership i).election.currentTerm
  committed : ∀ i t, Committed log i t → t ≤ (s.leadership i).election.currentTerm
  named : ∀ v t c, .granted v t c ∈ log → c ≠ []
  stood : ∀ i t won, .concluded i t won ∈ log → .started i t ∈ log
  primary : ∀ i, (s.leadership i).role = .primary →
    .concluded i (s.leadership i).election.currentTerm true ∈ log ∧
      (s.leadership i).election.votedFor = some (C.candidateId i)
  asked : ∀ i t j, .started i t ∈ log → j ≠ i →
    (∃ m ∈ s.requests, m.sender = i ∧ m.receiver = j ∧ m.term = t) ∨
      t ≤ (s.leadership j).election.currentTerm ∨ C.candidateId i = []
  promoted : log.Pairwise NotPast

theorem ClusterStep.term_le (hs : ClusterStep C s a s' es) (i : N) :
    (s.leadership i).election.currentTerm ≤ (s'.leadership i).election.currentTerm := by
  obtain ⟨k, l, hl, hn⟩ := hs.node
  rw [hl]
  by_cases hi : i = k
  · subst hi
    rw [Function.update_self]
    exact hn.advances.term_le
  · rw [Function.update_of_ne hi]

theorem tenure_committed (h : Tenure C log s) (hs : ClusterStep C s a s' es)
    (hc : Committed (log ++ es) i t) : t ≤ (s'.leadership i).election.currentTerm := by
  rcases committed_append.1 hc with hc | hc
  · exact (h.committed i t hc).trans (hs.term_le i)
  · obtain ⟨k, l, hl, hn⟩ := hs.node
    obtain ⟨rfl, ht⟩ := hn.committed hc
    rw [hl, Function.update_self, ht]

theorem tenure_named (h : Tenure C log s) (hs : ClusterStep C s a s' es) {c : JsString}
    (hc : .granted v t c ∈ log ++ es) : c ≠ [] := by
  rcases List.mem_append.1 hc with hc | hc
  · exact h.named v t c hc
  · obtain ⟨k, l, hl, hn⟩ := hs.node
    cases hn with
    | idle | stand | concluded | promoted | manual => simp at hc
    | request hv =>
      cases hv with
      | refused => simp at hc
      | granted hne =>
        simp only [if_true, List.mem_singleton, ClusterEvent.granted.injEq] at hc
        rw [hc.2.2]
        exact hne
    | leader hv => cases hv <;> simp at hc

theorem ClusterStep.mem_campaigns {c : Campaign N} (hs : ClusterStep C s (.conclude c) s' es) :
    c ∈ s.campaigns := by
  cases hs with
  | stand i caller b ha => simp at ha
  | concluded c hc => exact hc
  | promoted c hc => exact hc

/-- A request is on its way until its receiver has reached its term; a nameless candidate's is
refused unread. -/
theorem ClusterStep.answered (hs : ClusterStep C s a s' es)
    (hnonneg : ∀ i, 0 ≤ (s.leadership i).election.currentTerm)
    (hname : ∀ m ∈ s.requests, m.candidateId = C.candidateId m.sender) {m : VoteRequest N}
    (hm : m ∈ s.requests) :
    m ∈ s'.requests ∨ m.term ≤ (s'.leadership m.receiver).election.currentTerm ∨
      C.candidateId m.sender = [] := by
  cases hs with
  | stand => exact .inl (List.mem_append_left _ hm)
  | reply | giveUp | concluded | promoted | leader | manual => exact .inl hm
  | @request m' hm' r l granted hr hb hl =>
    by_cases hmm : m = m'
    swap
    · exact .inl ((List.mem_erase_of_ne hmm).2 hm)
    subst hmm
    have hl' : (ClusterState.leadership { s.setLeadership m.receiver l with
        requests := s.requests.erase m, replies := r :: s.replies } m.receiver) = l := by
      change (s.setLeadership m.receiver l).leadership m.receiver = l
      rw [ClusterState.leadership_setLeadership, Function.update_self]
    rw [hl']
    cases hl with
    | refused hbad =>
      rcases hbad with hbad | hbad | hbad
      · exact .inr (.inr ((hname m hm).symm.trans hbad))
      · exact .inr (.inl (hbad.le.trans (hnonneg m.receiver)))
      · exact .inr (.inl hbad)
    | granted => exact .inr (.inl le_rfl)

theorem tenure_asked (h : Tenure C log s)
    (hname : ∀ m ∈ s.requests, m.candidateId = C.candidateId m.sender)
    (hs : ClusterStep C s a s' es) (hst : .started i t ∈ log ++ es) (hji : j ≠ i) :
    (∃ m ∈ s'.requests, m.sender = i ∧ m.receiver = j ∧ m.term = t) ∨
      t ≤ (s'.leadership j).election.currentTerm ∨ C.candidateId i = [] := by
  rcases List.mem_append.1 hst with hst | hst
  · rcases h.asked i t j hst hji with ⟨m, hm, rfl, rfl, rfl⟩ | hle | hname'
    · rcases hs.answered h.nonneg hname hm with hm' | hle | hnil
      · exact .inl ⟨m, hm', rfl, rfl, rfl⟩
      · exact .inr (.inl hle)
      · exact .inr (.inr hnil)
    · exact .inr (.inl (hle.trans (hs.term_le j)))
    · exact .inr (.inr hname')
  · cases hs with
    | reply | giveUp | concluded | promoted | manual => simp at hst
    | request => split_ifs at hst <;> simp at hst
    | leader => split_ifs at hst <;> simp at hst
    | stand k caller b =>
      simp only [List.mem_singleton, ClusterEvent.started.injEq] at hst
      obtain ⟨rfl, rfl⟩ := hst
      have hl : ((s.setInFlight i b).nodes i).leadership = s.leadership i :=
        congrFun (ClusterState.leadership_setInFlight b) i
      refine .inl ⟨_, List.mem_append_right _ (List.mem_map.2 ⟨j, (C.mem_peers i j).2 hji, rfl⟩),
        rfl, rfl, ?_⟩
      rw [hl]
      rfl

theorem ClusterStep.promoted_mem (hP : InTerm s a) (hs : ClusterStep C s a s' es)
    (hp : .promoted i t ∈ es) :
    (s.leadership i).election.currentTerm = t ∧ ∀ e ∈ es, ∀ v t', ¬ Committed [e] v t' := by
  cases hs with
  | stand | reply | giveUp | manual | concluded => simp at hp
  | request => split_ifs at hp <;> simp at hp
  | leader => split_ifs at hp <;> simp at hp
  | promoted c hc hwon =>
    simp only [List.mem_cons, List.not_mem_nil, reduceCtorEq, false_or, or_false,
      ClusterEvent.promoted.injEq] at hp
    obtain ⟨rfl, rfl⟩ := hp
    exact ⟨hP hwon, by simp [Committed]⟩

theorem tenure_promoted (h : Tenure C log s) (hP : InTerm s a) (hs : ClusterStep C s a s' es) :
    (log ++ es).Pairwise NotPast := by
  refine List.pairwise_append.2 ⟨h.promoted, ?_, fun e he e' he' => ?_⟩
  · refine List.pairwise_of_forall_mem_list fun e he e' he' => ?_
    rintro i t t' rfl hc
    exact absurd hc ((hs.promoted_mem hP he').2 e he i t')
  · rintro i t t' rfl hc
    rw [← (hs.promoted_mem hP he').1]
    refine h.committed i t' ?_
    obtain ⟨l, l', rfl⟩ := List.append_of_mem he
    rw [← List.singleton_append, committed_append, committed_append]
    exact .inr (.inl hc)

variable [Fintype N]

theorem tenure_stood (h : Tenure C log s) (he : Evidence C log s) (hs : ClusterStep C s a s' es)
    {won : Bool} (hc : .concluded i t won ∈ log ++ es) : .started i t ∈ log ++ es := by
  rcases List.mem_append.1 hc with hc | hc
  · exact List.mem_append_left _ (h.stood i t won hc)
  · cases hs with
    | stand | reply | giveUp | manual => simp at hc
    | request => split_ifs at hc <;> simp at hc
    | leader => split_ifs at hc <;> simp at hc
    | concluded c hmem =>
      simp only [List.mem_singleton, ClusterEvent.concluded.injEq] at hc
      obtain ⟨rfl, rfl, -⟩ := hc
      exact List.mem_append_left _ (he.campaigns c hmem).started
    | promoted c hmem =>
      simp only [List.mem_cons, List.not_mem_nil, reduceCtorEq, or_false,
        ClusterEvent.concluded.injEq] at hc
      obtain ⟨rfl, rfl, -⟩ := hc
      exact List.mem_append_left _ (he.campaigns c hmem).started

theorem tenure_primary (h : Tenure C log s) (hv : Votes C log s) (he : Evidence C log s)
    (hP : InTerm s a) (hs : ClusterStep C s a s' es) (hi : (s'.leadership i).role = .primary) :
    .concluded i (s'.leadership i).election.currentTerm true ∈ log ++ es ∧
      (s'.leadership i).election.votedFor = some (C.candidateId i) := by
  obtain ⟨k, l, hl, hn⟩ := hs.node
  rw [hl] at hi ⊢
  by_cases hik : i = k
  swap
  · rw [Function.update_of_ne hik] at hi ⊢
    exact ⟨List.mem_append_left _ (h.primary i hi).1, (h.primary i hi).2⟩
  subst hik
  rw [Function.update_self] at hi ⊢
  have hstand : a = .campaignForPrimary i → (s.leadership i).role = .replica := by
    rintro rfl
    exact hP
  have hrun : a ≠ .runElection i := by
    rintro rfl
    exact hP
  have hmanual : ∀ urls, a ≠ .promote i urls := by
    rintro urls rfl
    exact hP
  rcases hn.primary hstand hrun hmanual hi with ⟨hp, ht, hvote⟩ | ⟨c, rfl, rfl, hwon, hel, hc⟩
  · obtain ⟨hc, hself⟩ := h.primary i hp
    exact ⟨List.mem_append_left _ (ht ▸ hc), hvote _ hself⟩
  · have hterm : (s.leadership c.node).election.currentTerm = c.term := hP hwon
    have hbacked := he.campaigns c hs.mem_campaigns
    have hheld := hv.holds c.node c.term (C.candidateId c.node) (.inr ⟨hbacked.started, rfl⟩)
    rw [hel, hterm]
    exact ⟨List.mem_append_right _ hc, hheld.2 hterm.symm⟩

theorem Tenure.step (h : Tenure C log s) (hv : Votes C log s) (he : Evidence C log s)
    (hP : InTerm s a) (hs : ClusterStep C s a s' es) : Tenure C (log ++ es) s' where
  nonneg i := (h.nonneg i).trans (hs.term_le i)
  committed _ _ hc := tenure_committed h hs hc
  named _ _ _ hc := tenure_named h hs hc
  stood _ _ _ hc := tenure_stood h he hs hc
  primary _ hi := tenure_primary h hv he hP hs hi
  asked _ _ _ hst hji := tenure_asked h he.requests hs hst hji
  promoted := tenure_promoted h hP hs

theorem tenure {primaryUrl : N → Option JsString} {replicaUrls : N → List JsString}
    (h : ClusterRun C InTerm (.boot C (fun _ => .replica) primaryUrl replicaUrls) log s) :
    Tenure C log s := by
  refine h.invariant_reached (I := Tenure C) ?_ fun hrun ht hP hstep => ?_
  · constructor <;> simp [Committed, ClusterState.boot, ClusterState.leadership, ElectionState.new]
  · obtain ⟨hv, he⟩ := votes_evidence hrun
    exact ht.step hv he hP (clusterStep hstep)

omit [DecidableEq N] in
/-- A winner that is not alone has a name. -/
theorem Tenure.named_winner (h : Tenure C log s) (he : Evidence C log s)
    (hj : .concluded j t true ∈ log) (hij : i ≠ j) : C.candidateId j ≠ [] := by
  obtain ⟨Q, hQ, hvotes⟩ := he.won j t hj
  have htwo : 1 < Q.card := by
    have hcard : 1 < Fintype.card N := Fintype.one_lt_card_iff.2 ⟨i, j, hij⟩
    unfold Majority at hQ
    omega
  obtain ⟨v, hv, hvj⟩ := Finset.exists_mem_ne htwo j
  rcases hvotes v hv with hgr | ⟨-, hself⟩
  · exact h.named v t _ hgr
  · exact absurd (C.candidateId_injective hself).symm hvj

/-- Of two primaries, the one of the smaller term has still to answer the other. -/
theorem Tenure.pending (h : Tenure C log s) (he : Evidence C log s)
    (hj : (s.leadership j).role = .primary) (hij : i ≠ j)
    (hlt : (s.leadership i).election.currentTerm < (s.leadership j).election.currentTerm) :
    ∃ m ∈ s.requests, m.receiver = i := by
  have hwon := (h.primary j hj).1
  rcases h.asked j _ i (h.stood j _ _ hwon) hij with ⟨m, hm, -, hr, -⟩ | hle | hname
  · exact ⟨m, hm, hr⟩
  · omega
  · exact absurd hname (h.named_winner he hwon hij)

/-- In a run where each campaign that concludes with a majority finds its node still in its term: a
node is promoted for a term it has not gone past; a primary has voted for itself; and once nothing
is in flight one node at most is primary. -/
theorem no_stale_promotion (C : ClusterConfig N) (primaryUrl : N → Option JsString)
    (replicaUrls : N → List JsString)
    (h : ClusterRun C InTerm (.boot C (fun _ => .replica) primaryUrl replicaUrls) log s) :
    (∀ l₁ l₂ i t t', log = l₁ ++ .promoted i t :: l₂ → Committed l₁ i t' → t' ≤ t) ∧
    (∀ i, (s.leadership i).role = .primary →
      (s.leadership i).election.votedFor = some (C.candidateId i)) ∧
    (Quiescent s → ∀ i j, (s.leadership i).role = .primary →
      (s.leadership j).role = .primary → i = j) := by
  obtain ⟨hv, he⟩ := votes_evidence h
  have ht := tenure h
  refine ⟨?_, fun i hi => (ht.primary i hi).2, fun hq i j hi hj => ?_⟩
  · rintro l₁ l₂ i t t' rfl (⟨c, hc⟩ | ⟨url, hc⟩)
    · exact (List.pairwise_append.1 ht.promoted).2.2 _ hc _ List.mem_cons_self i t t' rfl
        (.inl ⟨c, List.mem_singleton_self _⟩)
    · exact (List.pairwise_append.1 ht.promoted).2.2 _ hc _ List.mem_cons_self i t t' rfl
        (.inr ⟨url, List.mem_singleton_self _⟩)
  · by_contra hij
    rcases lt_trichotomy (s.leadership i).election.currentTerm
      (s.leadership j).election.currentTerm with hlt | heq | hlt
    · obtain ⟨m, hm, -⟩ := ht.pending he hj hij hlt
      simp [hq.1] at hm
    · exact hij (he.winner_unique hv.single (heq ▸ (ht.primary i hi).1) (ht.primary j hj).1)
    · obtain ⟨m, hm, -⟩ := ht.pending he hi (Ne.symm hij) hlt
      simp [hq.1] at hm

/-- The third node's vote makes one of two candidates primary. -/
theorem no_stale_promotion_contested : ∃ (log : List (ClusterEvent (Fin 3)))
    (s : ClusterState (Fin 3)),
    ClusterRun threeNodes InTerm
      (.boot threeNodes (fun _ => .replica) (fun _ => none) (fun _ => [])) log s ∧
    (s.leadership 0).role = .primary ∧ ∀ j, (s.leadership j).role = .primary → j = 0 := by
  have hrun : ∃ (log : List (ClusterEvent (Fin 3))) (s : ClusterState (Fin 3)),
      ClusterRun threeNodes InTerm
        (.boot threeNodes (fun _ => .replica) (fun _ => none) (fun _ => [])) log s ∧
      (s.nodes 0).leadership.role = .primary ∧ Quiescent s :=
    exists_run_of_exec [
      .campaignForPrimary 0,
      .campaignForPrimary 1,
      .receiveRequest ⟨0, 2, 1, js "http://a"⟩,
      .receiveRequest ⟨1, 2, 1, js "http://b"⟩,
      .receiveRequest ⟨0, 1, 1, js "http://a"⟩,
      .receiveRequest ⟨1, 0, 1, js "http://b"⟩,
      .receiveReply ⟨2, 0, 1, .voted ⟨true, 1⟩⟩,
      .receiveReply ⟨1, 0, 1, .voted ⟨false, 1⟩⟩,
      .receiveReply ⟨2, 1, 1, .voted ⟨false, 1⟩⟩,
      .giveUp ⟨1, 1, .campaignForPrimary, [(0, none), (2, some false)]⟩ 0,
      .conclude ⟨1, 1, .campaignForPrimary, [(0, some false), (2, some false)]⟩,
      .conclude ⟨0, 1, .campaignForPrimary, [(1, some false), (2, some true)]⟩,
      .receiveLeader ⟨0, 2, 1, js "http://a"⟩,
      .receiveLeader ⟨0, 1, 1, js "http://a"⟩] (by decide +kernel)
  obtain ⟨log, s, h, hp, hq⟩ := hrun
  exact ⟨log, s, h, hp, fun j hj => (no_stale_promotion threeNodes _ _ h).2.2 hq j 0 hj hp⟩

/-- `a` stands in term 1 and waits for `b`; meanwhile it votes for `b` in term 2 and adopts it. Then
`b` refuses the request of term 1, and the vote of `c` in term 1 makes `a` a second primary. -/
theorem stale_promotion : ∃ s : ClusterState (Fin 3),
    ClusterRun threeNodes ByReplicas
      (.boot threeNodes (fun _ => .replica) (fun _ => none) (fun _ => []))
      [.started 0 1, .granted 2 1 (js "http://a"), .started 1 1, .concluded 1 1 false,
        .started 1 2, .granted 0 2 (js "http://b"), .granted 2 2 (js "http://b"),
        .concluded 1 2 true, .promoted 1 2, .adopted 0 2 (js "http://b"),
        .adopted 2 2 (js "http://b"), .concluded 0 1 true, .promoted 0 1] s ∧
    (s.nodes 0).leadership.role = .primary ∧ (s.nodes 1).leadership.role = .primary ∧
    (s.nodes 0).leadership.election.votedFor = some (js "http://b") ∧ Quiescent s := by
  have hrun : ∃ (log : List (ClusterEvent (Fin 3))) (s : ClusterState (Fin 3)),
      ClusterRun threeNodes ByReplicas
        (.boot threeNodes (fun _ => .replica) (fun _ => none) (fun _ => [])) log s ∧
      log = [.started 0 1, .granted 2 1 (js "http://a"), .started 1 1, .concluded 1 1 false,
        .started 1 2, .granted 0 2 (js "http://b"), .granted 2 2 (js "http://b"),
        .concluded 1 2 true, .promoted 1 2, .adopted 0 2 (js "http://b"),
        .adopted 2 2 (js "http://b"), .concluded 0 1 true, .promoted 0 1] ∧
      (s.nodes 0).leadership.role = .primary ∧ (s.nodes 1).leadership.role = .primary ∧
      (s.nodes 0).leadership.election.votedFor = some (js "http://b") ∧ Quiescent s :=
    exists_run_of_exec [
      .campaignForPrimary 0,
      .receiveRequest ⟨0, 2, 1, js "http://a"⟩,
      .receiveReply ⟨2, 0, 1, .voted ⟨true, 1⟩⟩,
      .campaignForPrimary 1,
      .receiveRequest ⟨1, 0, 1, js "http://b"⟩,
      .receiveRequest ⟨1, 2, 1, js "http://b"⟩,
      .receiveReply ⟨0, 1, 1, .voted ⟨false, 1⟩⟩,
      .receiveReply ⟨2, 1, 1, .voted ⟨false, 1⟩⟩,
      .conclude ⟨1, 1, .campaignForPrimary, [(0, some false), (2, some false)]⟩,
      .campaignForPrimary 1,
      .receiveRequest ⟨1, 0, 2, js "http://b"⟩,
      .receiveRequest ⟨1, 2, 2, js "http://b"⟩,
      .receiveReply ⟨0, 1, 2, .voted ⟨true, 2⟩⟩,
      .receiveReply ⟨2, 1, 2, .voted ⟨true, 2⟩⟩,
      .conclude ⟨1, 2, .campaignForPrimary, [(0, some true), (2, some true)]⟩,
      .receiveLeader ⟨1, 0, 2, js "http://b"⟩,
      .receiveLeader ⟨1, 2, 2, js "http://b"⟩,
      .receiveRequest ⟨0, 1, 1, js "http://a"⟩,
      .receiveReply ⟨1, 0, 1, .voted ⟨false, 2⟩⟩,
      .conclude ⟨0, 1, .campaignForPrimary, [(1, some false), (2, some true)]⟩,
      .receiveLeader ⟨0, 1, 1, js "http://a"⟩,
      .receiveLeader ⟨0, 2, 1, js "http://a"⟩] (by decide +kernel)
  obtain ⟨log, s, h, rfl, hs⟩ := hrun
  exact ⟨s, h, hs⟩

end InkCache
