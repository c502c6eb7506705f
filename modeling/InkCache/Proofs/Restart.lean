import InkCache.Restart
import InkCache.Proofs.ElectionSafety

/-!
# A vote that is forgotten can be cast twice

A restarted node's ballot holds only the votes it has cast since (`Incarnations`). As long as it is
not asked again for a vote it has forgotten, it is still one vote a term over all its incarnations,
and the majorities of `Evidence` overlap as they do without restarts.
-/

namespace InkCache

open Lib

variable {N : Type} {C : ClusterConfig N} {E : Environment N} {log es : List (ClusterEvent N)}
  {i v : N} {t : ℤ} {c : JsString} {s s' : RestartState N}

/-- Every vote is one that its voter has cast since it last started, and holds, or one it has
forgotten; over all its incarnations it is the only one of its term. -/
structure Incarnations (E : Environment N) (log : List (ClusterEvent N)) (s : RestartState N) :
    Prop where
  selfId : ∀ i, (s.cluster.leadership i).election.selfId = E.config.candidateId i
  recorded : ∀ v t c, Voted E.config log v t c ↔ (t, c) ∈ s.cast v ∨ (t, c) ∈ s.forgotten v
  holds : ∀ v t c, (t, c) ∈ s.cast v → (s.cluster.ballot v).Holds t c
  single : ∀ v t c c', Voted E.config log v t c → Voted E.config log v t c' → c = c'

theorem incarnations_boot : Incarnations E [] (.boot E) :=
  ⟨fun _ => rfl, by simp [Voted, RestartState.boot], by simp [RestartState.boot],
    by simp [Voted]⟩

/-! ## The votes of a step -/

theorem voted_granted {b : Bool} {t' : ℤ} {c' : JsString}
    (hv : Voted C (if b then [.granted i t' c'] else []) v t c) :
    b = true ∧ i = v ∧ t' = t ∧ c' = c := by
  rcases b
  · simp [Voted] at hv
  · simpa [Voted, eq_comm] using hv

/-- A vote that its voter has forgotten and gave to another is a second one of its term. -/
theorem Incarnations.second_vote (h : Incarnations E log s) (hn : ¬ NoneForgotten s v t c)
    (hv : Voted E.config es v t c) : ∃ v t c c', c ≠ c' ∧ Voted E.config (log ++ es) v t c ∧
      Voted E.config (log ++ es) v t c' := by
  unfold NoneForgotten at hn
  push Not at hn
  obtain ⟨⟨t', c'⟩, hm, rfl, hne⟩ := hn
  exact ⟨v, t', c, c', hne.symm, voted_append.2 (.inr hv),
    voted_append.2 (.inl ((h.recorded v t' c').2 (.inr hm)))⟩

variable [DecidableEq N]

theorem mem_votesOf : (t, c) ∈ votesOf C v es ↔ Voted C es v t c := by
  simp only [votesOf, List.mem_filterMap, Voted]
  constructor
  · rintro ⟨e, he, hm⟩
    cases e with
    | started i t' =>
      simp only [Option.ite_none_right_eq_some, Option.some.injEq, Prod.mk.injEq] at hm
      obtain ⟨rfl, rfl, rfl⟩ := hm
      exact .inr ⟨he, rfl⟩
    | granted i t' c' =>
      simp only [Option.ite_none_right_eq_some, Option.some.injEq, Prod.mk.injEq] at hm
      obtain ⟨rfl, rfl, rfl⟩ := hm
      exact .inl he
    | concluded | promoted | adopted => simp at hm
  · rintro (he | ⟨he, rfl⟩)
    · exact ⟨_, he, by simp⟩
    · exact ⟨_, he, by simp⟩

/-- The route grants exactly what the node is free to grant. -/
theorem grants_iff {n : Leadership} : (n.requestVote t c).2.grants = true ↔ Grantable n t c := by
  unfold Leadership.requestVote Grantable
  split_ifs with ht hc
  · simp only [VoteResponse.grants, Bool.false_eq_true, false_iff]
    rintro ⟨h, -⟩
    omega
  · simp [VoteResponse.grants, List.length_eq_zero_iff.1 hc]
  · have hne : c ≠ [] := fun h => hc (List.length_eq_zero_iff.2 h)
    simp only [VoteResponse.grants, ElectionState.requestVote, not_lt.1 ht, hne, ne_eq,
      not_false_eq_true, true_and]
    rcases lt_trichotomy t n.election.currentTerm with h | rfl | h
    · simp [h, h.not_gt, h.ne']
    · simp only [lt_self_iff_false, if_false, false_or, true_and]
      split_ifs with hv
      · simpa using hv
      · simpa using hv
    · simp [h, h.not_gt]

/-- A vote that a step of the cluster casts is one it was asked for, or a candidate's own. -/
theorem voted_step {s s' : ClusterState N} {a : ClusterAction N}
    (h : s.step C a = some (s', es)) (hv : Voted C es v t c) :
    (∃ m, a = .receiveRequest m ∧ m.receiver = v ∧ m.term = t ∧ m.candidateId = c ∧
      Grantable (s.nodes v).leadership t c) ∨
    ((a = .campaignForPrimary v ∨ a = .runElection v) ∧
      t = (s.nodes v).leadership.election.currentTerm + 1 ∧ c = C.candidateId v) := by
  cases clusterStep h with
  | stand i caller b ha =>
    simp only [Voted, List.mem_singleton, reduceCtorEq, false_or, ClusterEvent.started.injEq] at hv
    obtain ⟨⟨rfl, rfl⟩, rfl⟩ := hv
    exact .inr ⟨ha, rfl, rfl⟩
  | request m hm =>
    simp only [ClusterState.step, if_pos hm, Option.some.injEq, Prod.mk.injEq] at h
    rw [← h.2] at hv
    obtain ⟨hg, rfl, rfl, rfl⟩ := voted_granted hv
    exact .inl ⟨m, rfl, rfl, rfl, rfl, grants_iff.1 hg⟩
  | @leader m hm l b hl =>
    rcases b <;> simp [Voted] at hv
  | reply | giveUp | concluded | promoted | manual => simp [Voted] at hv

/-! ## What a step does -/

/-- The cluster takes a step, a request of a campaign that is gone is answered, or a node
restarts. -/
inductive RestartStep (E : Environment N) (s : RestartState N) :
    RestartAction N → RestartState N → List (ClusterEvent N) → Prop
  | cluster {a : ClusterAction N} {cluster : ClusterState N} {es : List (ClusterEvent N)}
      (hstep : s.cluster.step E.config a = some (cluster, es)) :
      RestartStep E s (.cluster a) (s.record E cluster es) es
  | orphan {m : VoteRequest N} {l : Leadership} {b : Bool}
      (hb : b = true ↔ Grantable (s.cluster.leadership m.receiver) m.term m.candidateId)
      (hl : VoteRouteStep m.term m.candidateId (s.cluster.leadership m.receiver) l b) :
      RestartStep E s (.receiveOrphan m)
        { s.record E (s.cluster.setLeadership m.receiver l)
            (if b then [.granted m.receiver m.term m.candidateId] else []) with
          orphans := s.orphans.erase m }
        (if b then [.granted m.receiver m.term m.candidateId] else [])
  | restart (i : N) : RestartStep E s (.restart i) (s.restart E i) []

theorem restartStep {a : RestartAction N} (hs : s.step E a = some (s', es)) :
    RestartStep E s a s' es := by
  cases a with
  | cluster a =>
    simp only [RestartState.step, Option.map_eq_some_iff, Prod.mk.injEq] at hs
    obtain ⟨⟨cluster, es'⟩, hstep, rfl, rfl⟩ := hs
    exact .cluster hstep
  | receiveOrphan m =>
    simp only [RestartState.step] at hs
    by_cases hm : m ∈ s.orphans
    swap
    · simp [hm] at hs
    simp only [if_pos hm, Option.some.injEq, Prod.mk.injEq] at hs
    obtain ⟨rfl, rfl⟩ := hs
    exact .orphan grants_iff (voteRouteStep m.term m.candidateId _)
  | restart i =>
    simp only [RestartState.step, Option.some.injEq, Prod.mk.injEq] at hs
    obtain ⟨rfl, rfl⟩ := hs
    exact .restart i

/-! ## Incarnations -/

namespace Incarnations

theorem record {cluster : ClusterState N} {a : ClusterAction N} {l : Leadership}
    (h : Incarnations E log s) (hn : NodeStep E.config a i (s.cluster.leadership i) l es)
    (hl : cluster.leadership = Function.update s.cluster.leadership i l)
    (hnone : ∀ v t c, Voted E.config es v t c → NoneForgotten s v t c) :
    Incarnations E (log ++ es) (s.record E cluster es) := by
  have hcast : ∀ v t c, (t, c) ∈ (s.record E cluster es).cast v ↔
      (t, c) ∈ s.cast v ∨ Voted E.config es v t c := fun v t c => by
    rw [RestartState.record, List.mem_append, mem_votesOf]
  have hnew : ∀ v t c, Voted E.config es v t c → cluster.ballot v = ⟨t, some c⟩ :=
    fun v t c hv => ballot_of_voted hn hl h.selfId hv
  have hholds : ∀ v t c, (t, c) ∈ (s.record E cluster es).cast v →
      (cluster.ballot v).Holds t c := by
    intro v t c hm
    rcases (hcast v t c).1 hm with hm | hv
    · exact (h.holds v t c hm).advances (ballot_advances hn hl v)
    · rw [hnew v t c hv]
      exact Ballot.holds_self rfl
  -- a new vote meets an old one of its term on the voter's ballot, or among the forgotten
  have hold : ∀ v t c c', Voted E.config es v t c → Voted E.config log v t c' → c' = c := by
    intro v t c c' hv hv'
    rcases (h.recorded v t c').1 hv' with hm | hm
    · have hh := (h.holds v t c' hm).advances (ballot_advances hn hl v)
      rw [hnew v t c hv] at hh
      exact hh.unique (Ballot.holds_self rfl)
    · exact hnone v t c hv (t, c') hm rfl
  refine ⟨selfId_step hn hl h.selfId, fun v t c => ?_, hholds, fun v t c c' hc hc' => ?_⟩
  · rw [voted_append, h.recorded, hcast]
    exact or_right_comm
  · rcases voted_append.1 hc with ho | hnw
    · rcases voted_append.1 hc' with ho' | hnw'
      · exact h.single v t c c' ho ho'
      · exact hold v t c' c hnw' ho
    · rcases voted_append.1 hc' with ho' | hnw'
      · exact (hold v t c c' hnw ho').symm
      · have hb := hnew v t c hnw
        rw [hnew v t c' hnw', Ballot.mk.injEq, Option.some.injEq] at hb
        exact hb.2.symm

theorem restart (h : Incarnations E log s) (i : N) : Incarnations E log (s.restart E i) := by
  have hother : ∀ v, v ≠ i → (s.restart E i).cluster.leadership v = s.cluster.leadership v :=
    fun v hv => congrArg ClusterNode.leadership (Function.update_of_ne hv _ _)
  refine ⟨fun v => ?_, fun v t c => ?_, fun v t c hm => ?_, h.single⟩
  · by_cases hv : v = i
    · subst hv
      simp [RestartState.restart, ClusterState.leadership, ClusterState.setNode, Environment.boot,
        ClusterState.boot, ElectionState.new]
    · rw [hother v hv]
      exact h.selfId v
  · rw [h.recorded]
    by_cases hv : v = i
    · subst hv
      simp [RestartState.restart, or_comm]
    · simp [RestartState.restart, hv]
  · by_cases hv : v = i
    · subst hv
      simp [RestartState.restart] at hm
    · simp only [RestartState.restart, Function.update_of_ne hv] at hm
      unfold ClusterState.ballot
      rw [hother v hv]
      exact h.holds v t c hm

theorem step {a : RestartAction N} (h : Incarnations E log s) (hP : Remembers E.config s a)
    (hs : s.step E a = some (s', es)) : Incarnations E (log ++ es) s' := by
  cases restartStep hs with
  | cluster hstep =>
    obtain ⟨i, l, hl, hn⟩ := (clusterStep hstep).node
    refine h.record hn hl fun v t c hv => ?_
    rcases voted_step hstep hv with ⟨m, rfl, rfl, rfl, rfl, hg⟩ | ⟨ha, rfl, rfl⟩
    · exact hP hg
    · rcases ha with rfl | rfl
      · exact hP
      · exact hP
  | @orphan m l b hb hl =>
    have hn := NodeStep.request (C := E.config) (a := .receiveRequest m) (i := m.receiver) hl
    have hrec := h.record hn (ClusterState.leadership_setLeadership _) fun v t c hv => by
      obtain ⟨hg, rfl, rfl, rfl⟩ := voted_granted hv
      exact hP (hb.1 hg)
    exact ⟨hrec.selfId, hrec.recorded, hrec.holds, hrec.single⟩
  | restart i =>
    rw [List.append_nil]
    exact h.restart i

end Incarnations

/-! ## Evidence -/

theorem Evidence.restart [Fintype N] (h : Evidence E.config log s.cluster) (i : N) :
    Evidence E.config log (s.restart E i).cluster where
  requests m hm := h.requests m (List.mem_of_mem_filter hm)
  replies m hm := h.replies m (List.mem_of_mem_filter hm)
  campaigns c hc := h.campaigns c (List.mem_of_mem_filter hc)
  won := h.won
  announcements := h.announcements
  adopted := h.adopted

theorem Evidence.of_restartStep [Fintype N] {a : RestartAction N}
    (h : Evidence E.config log s.cluster) (hs : s.step E a = some (s', es)) :
    Evidence E.config (log ++ es) s'.cluster := by
  cases restartStep hs with
  | cluster hstep => exact h.step (clusterStep hstep)
  | @orphan m l b hb hl =>
    have hst : Evidence E.config (log ++
        if b then [.granted m.receiver m.term m.candidateId] else []) s.cluster :=
      h.append (by split_ifs <;> simp) (by split_ifs <;> simp)
    exact ⟨hst.requests, hst.replies, hst.campaigns, hst.won, hst.announcements, hst.adopted⟩
  | restart i =>
    rw [List.append_nil]
    exact h.restart i

/-! ## Safety -/

theorem Incarnations.votes_twice {a : RestartAction N} (h : Incarnations E log s)
    (hP : ¬ Remembers E.config s a) (hs : s.step E a = some (s', es)) :
    ∃ v t c c', c ≠ c' ∧ Voted E.config (log ++ es) v t c ∧
      Voted E.config (log ++ es) v t c' := by
  cases restartStep hs with
  | @cluster a cluster es hstep =>
    cases a with
    | campaignForPrimary i | runElection i =>
      cases clusterStep hstep with
      | stand i' caller b ha =>
        simp only [ClusterAction.campaignForPrimary.injEq, ClusterAction.runElection.injEq,
          reduceCtorEq, or_false, false_or] at ha
        subst ha
        exact h.second_vote hP (.inr ⟨List.mem_singleton_self _, rfl⟩)
    | receiveRequest m =>
      obtain ⟨hg, hn⟩ := Classical.not_imp.1 hP
      simp only [ClusterState.step] at hstep
      split_ifs at hstep with hm hgrants
      · simp only [Option.some.injEq, Prod.mk.injEq] at hstep
        rw [← hstep.2]
        exact h.second_vote hn (.inl (List.mem_singleton_self _))
      · exact absurd (grants_iff.2 hg) hgrants
    | receiveReply | giveUp | conclude | receiveLeader | promote => exact absurd trivial hP
  | orphan hb =>
    obtain ⟨hg, hn⟩ := Classical.not_imp.1 hP
    rw [if_pos (hb.2 hg)]
    exact h.second_vote hn (.inl (List.mem_singleton_self _))
  | restart i => exact absurd trivial hP

/-- In every run in which no node that has forgotten a vote is free to give its term's vote to
another and is asked to, or stands: a node votes for one candidate a term, and one node at most wins
a term. The first step that is otherwise casts a second vote. -/
theorem election_safety_restarts [Fintype N] (E : Environment N)
    (h : Run (RestartState.step E) (Remembers E.config) (.boot E) log s) :
    (∀ v t c c', Voted E.config log v t c → Voted E.config log v t c' → c = c') ∧
    (∀ t i j, .concluded i t true ∈ log → .concluded j t true ∈ log → i = j) ∧
    ∀ a s' es, s.step E a = some (s', es) → ¬ Remembers E.config s a →
      ∃ v t c c', c ≠ c' ∧ Voted E.config (log ++ es) v t c ∧
        Voted E.config (log ++ es) v t c' := by
  obtain ⟨hi, he⟩ := h.invariant
    (I := fun log s => Incarnations E log s ∧ Evidence E.config log s.cluster)
    ⟨incarnations_boot, by constructor <;> simp [RestartState.boot, Environment.boot,
      ClusterState.boot]⟩
    fun hI hP hs => ⟨hI.1.step hP hs, hI.2.of_restartStep hs⟩
  exact ⟨hi.single, fun t i j hwi hwj => he.winner_unique hi.single hwi hwj,
    fun a s' es hs hP => hi.votes_twice hP hs⟩

/-- A voter restarts, but hears of the winner before it is asked again. -/
theorem election_safety_restarts_told : ∃ (log : List (ClusterEvent (Fin 3)))
    (s : RestartState (Fin 3)),
    Run (RestartState.step threeReplicas) (Remembers threeNodes) (.boot threeReplicas) log s ∧
    .granted 2 1 (js "http://a") ∈ log ∧ s.forgotten 2 ≠ [] ∧ .concluded 0 1 true ∈ log ∧
    ∀ j, .concluded j 1 true ∈ log → j = 0 := by
  have hrun : ∃ (log : List (ClusterEvent (Fin 3))) (s : RestartState (Fin 3)),
      Run (RestartState.step threeReplicas) (Remembers threeNodes) (.boot threeReplicas) log s ∧
      .granted 2 1 (js "http://a") ∈ log ∧ s.forgotten 2 ≠ [] ∧ .concluded 0 1 true ∈ log :=
    exists_run_of_exec [
      .cluster (.campaignForPrimary 0),
      .cluster (.campaignForPrimary 1),
      .cluster (.receiveRequest ⟨0, 2, 1, js "http://a"⟩),
      .cluster (.receiveReply ⟨2, 0, 1, .voted ⟨true, 1⟩⟩),
      .cluster (.giveUp ⟨0, 1, .campaignForPrimary, [(1, none), (2, some true)]⟩ 1),
      .cluster (.conclude ⟨0, 1, .campaignForPrimary, [(1, some false), (2, some true)]⟩),
      .restart 2,
      .cluster (.receiveLeader ⟨0, 2, 1, js "http://a"⟩),
      .cluster (.receiveRequest ⟨1, 2, 1, js "http://b"⟩)] (by decide +kernel)
  obtain ⟨log, s, h, hg, hf, hw⟩ := hrun
  exact ⟨log, s, h, hg, hf, hw, fun j hj =>
    (election_safety_restarts threeReplicas h).2.1 1 j 0 hj hw⟩

/-- A voter restarts, and is asked again: two nodes win the term. -/
theorem two_winners : ∃ (log : List (ClusterEvent (Fin 3))) (s : RestartState (Fin 3)),
    Run (RestartState.step threeReplicas) (fun _ _ => True) (.boot threeReplicas) log s ∧
    .granted 2 1 (js "http://a") ∈ log ∧ .granted 2 1 (js "http://b") ∈ log ∧
    .concluded 0 1 true ∈ log ∧ .concluded 1 1 true ∈ log :=
  exists_run_of_exec [
    .cluster (.campaignForPrimary 0),
    .cluster (.campaignForPrimary 1),
    .cluster (.receiveRequest ⟨0, 2, 1, js "http://a"⟩),
    .cluster (.receiveReply ⟨2, 0, 1, .voted ⟨true, 1⟩⟩),
    .cluster (.receiveRequest ⟨0, 1, 1, js "http://a"⟩),
    .cluster (.receiveReply ⟨1, 0, 1, .voted ⟨false, 1⟩⟩),
    .cluster (.conclude ⟨0, 1, .campaignForPrimary, [(1, some false), (2, some true)]⟩),
    .restart 2,
    .cluster (.receiveRequest ⟨1, 2, 1, js "http://b"⟩),
    .cluster (.receiveReply ⟨2, 1, 1, .voted ⟨true, 1⟩⟩),
    .cluster (.receiveRequest ⟨1, 0, 1, js "http://b"⟩),
    .cluster (.receiveReply ⟨0, 1, 1, .voted ⟨false, 1⟩⟩),
    .cluster (.conclude ⟨1, 1, .campaignForPrimary, [(0, some false), (2, some true)]⟩)]
    (by decide +kernel)

end InkCache
