import InkCache.Convergence
import InkCache.Lib.Spread
import InkCache.Proofs.Deregistration

/-!
# Gossip converges

As long as no node is deregistered, every url that is carried stems from a member, and every member
is known where it came in (`Sourced`). A run in which the members stay forgets nothing, and an
exchange tells both sides what the other knew before it, so knowledge spreads in rounds over the
links between gateways (`spreads`). If normalisation leaves the members as they are, nothing else
can turn up.
-/

namespace InkCache

open Lib

/-- Rings of the same nodes route a key alike if no key lands where two of them have a point. -/
theorem Placed.getNode_congr {hashToUint32 : JsString → Hash} {r r' : HashRing}
    (h : Placed hashToUint32 r) (h' : Placed hashToUint32 r')
    (hv : r'.virtualNodes = r.virtualNodes) (hset : r'.nodeSet.toFinset = r.nodeSet.toFinset)
    (hshared : NoSharedLanding hashToUint32 r.virtualNodes r.nodeSet.toFinset) (key : JsString) :
    r'.getNode hashToUint32 key = r.getNode hashToUint32 key := by
  have hnone : r'.getNode hashToUint32 key = none ↔ r.getNode hashToUint32 key = none := by
    rw [h.getNode_eq_none, h'.getNode_eq_none, hset, hv]
  rcases hg : r.getNode hashToUint32 key with _ | n
  · exact hnone.2 hg
  rcases hg' : r'.getNode hashToUint32 key with _ | m
  · rw [hnone.1 hg'] at hg
    simp at hg
  obtain ⟨x, hx, hn, hpn, -⟩ := h.getNode_eq_some hg
  obtain ⟨y, hy, hm, hpm, -⟩ := h'.getNode_eq_some hg'
  rw [hset, hv] at hy
  rw [← List.mem_toFinset] at hn hm
  rw [hset] at hm
  rw [hv] at hpm
  obtain rfl := hx.unique hy
  rw [hshared key x hx n hn m hm hpn hpm]

namespace GatewayCluster

variable {G ν : Type} {hashToUint32 : JsString → Hash} {s s' s'' : GatewayCluster G}
  {clusterNodes : G → Option JsString} {v : JsString}

/-! ## Where urls come from -/

theorem member_congr (h : s'.registrations = s.registrations) :
    Member clusterNodes s' v ↔ Member clusterNodes s v := by
  simp only [Member, h]

/-- Every member is known, and what is carried is made of a member. -/
structure Sourced (clusterNodes : G → Option JsString) (s : GatewayCluster G) : Prop where
  known : ∀ v, Member clusterNodes s v → ∃ i, v ∈ (s.gateways i).known
  carried : ∀ v, s.Carries v → ∃ u, Member clusterNodes s u ∧ Leads u v

namespace Sourced

theorem boot (hashToUint32 : JsString → Hash) (virtualNodes : ℕ)
    (clusterNodes : G → Option JsString) :
    Sourced clusterNodes (.boot hashToUint32 virtualNodes clusterNodes) := by
  have hstart : ∀ i v, v ∈ ((GatewayCluster.boot hashToUint32 virtualNodes clusterNodes).gateways
      i).known ↔ v ∈ resolveClusterNodes (clusterNodes i) := by
    intro i v
    simp only [GatewayCluster.boot, known_eq, Gateway.start]
    generalize resolveClusterNodes (clusterNodes i) = nodes
    induction nodes using List.reverseRecOn with
    | nil => simp [OrderedMap.keys, OrderedMap.empty]
    | append_singleton nodes url ih =>
      rw [List.foldl_append, List.foldl_cons, List.foldl_nil, OrderedMap.mem_keys_set, ih,
        List.mem_append, List.mem_singleton, or_comm]
  refine ⟨?_, ?_⟩
  · rintro v (⟨i, hv⟩ | ⟨i, hv⟩)
    · exact ⟨i, (hstart i v).2 hv⟩
    · simp [GatewayCluster.boot] at hv
  · rintro v (⟨i, hv⟩ | ⟨m, hm, -⟩ | ⟨m, hm, -⟩)
    · exact ⟨v, .inl ⟨i, (hstart i v).1 hv⟩, .refl v⟩
    · simp [GatewayCluster.boot] at hm
    · simp [GatewayCluster.boot] at hm

end Sourced

variable [DecidableEq G] {peers : G → List G} {i j : G}

/-! ## Quiet runs -/

/-- What a step does while the members stay as they are. -/
theorem grow_of_keepsMembers {a : GossipAction G ν} {es : List GatewayResponse}
    (hP : s.KeepsMembers a) (hs : s.step hashToUint32 peers a = some (s', es)) :
    s'.registrations = s.registrations ∧
      ∀ j, ∀ v ∈ (s.gateways j).known, v ∈ (s'.gateways j).known := by
  cases gossipStep hs with
  | gossip hregs _ hgrow _ => exact ⟨hregs, hgrow⟩
  | registered | deregistered => exact hP.elim

namespace Quietly

theorem refl (s : GatewayCluster G) : Quietly hashToUint32 peers ν s s := ⟨[], .start⟩

theorem trans (h : Quietly hashToUint32 peers ν s s') (h' : Quietly hashToUint32 peers ν s' s'') :
    Quietly hashToUint32 peers ν s s'' := by
  obtain ⟨log, hrun⟩ := h
  obtain ⟨log', hrun'⟩ := h'
  exact ⟨_, hrun.trans hrun'⟩

theorem of_step {a : GossipAction G ν} {es : List GatewayResponse} (hP : s.KeepsMembers a)
    (hs : s.step hashToUint32 peers a = some (s', es)) : Quietly hashToUint32 peers ν s s' :=
  ⟨_, Run.start.next a hP hs⟩

theorem grow (h : Quietly hashToUint32 peers ν s s') : s'.registrations = s.registrations ∧
    ∀ j, ∀ v ∈ (s.gateways j).known, v ∈ (s'.gateways j).known := by
  obtain ⟨log, hrun⟩ := h
  refine hrun.invariant (I := fun _ s' => s'.registrations = s.registrations ∧
    ∀ j, ∀ v ∈ (s.gateways j).known, v ∈ (s'.gateways j).known) ⟨rfl, fun _ _ hv => hv⟩ ?_
  intro _ s₁ a s₂ es ⟨hregs, hgrow⟩ hP hs
  obtain ⟨hregs', hgrow'⟩ := grow_of_keepsMembers hP hs
  exact ⟨hregs'.trans hregs, fun j v hv => hgrow' j v (hgrow j v hv)⟩

theorem known (h : Quietly hashToUint32 peers ν s s') (hv : v ∈ (s.gateways j).known) :
    v ∈ (s'.gateways j).known :=
  h.grow.2 j v hv

theorem noneDeregistered (h : Quietly hashToUint32 peers ν s s') : ∃ log,
    Run (step hashToUint32 peers) (fun s (a : GossipAction G ν) => s.NoneDeregistered a)
      s log s' := by
  obtain ⟨log, hrun⟩ := h
  refine ⟨log, hrun.mono fun s a hP => ?_⟩
  unfold KeepsMembers at hP
  unfold NoneDeregistered
  split at hP <;> simp_all

end Quietly

namespace Sourced

theorem step {a : GossipAction G ν} {es : List GatewayResponse} (h : Sourced clusterNodes s)
    (hP : s.NoneDeregistered a) (hs : s.step hashToUint32 peers a = some (s', es)) :
    Sourced clusterNodes s' := by
  cases gossipStep hs with
  | gossip hregs _ hgrow hcarried =>
    refine ⟨fun v hv => ?_, fun v hv => ?_⟩
    · obtain ⟨i, hi⟩ := h.known v ((member_congr hregs).1 hv)
      exact ⟨i, hgrow i v hi⟩
    · obtain ⟨w, hw, hvw⟩ := hcarried v hv
      obtain ⟨u, hu, n, rfl⟩ := h.carried w hw
      refine ⟨u, (member_congr hregs).2 hu, ?_⟩
      rcases hvw with rfl | rfl
      · exact ⟨n, rfl⟩
      · exact ⟨n + 1, Function.iterate_succ_apply' normalized n u⟩
  | @registered i body s' url _ hregs _ hmsg hknown =>
    refine ⟨fun v hv => ?_, fun v hv => ?_⟩
    · rw [Member, hregs] at hv
      rcases hv with hv | ⟨j, hv⟩
      · obtain ⟨k, hk⟩ := h.known v (.inl hv)
        exact ⟨k, (hknown k v).2 (.inl hk)⟩
      rcases List.mem_cons.1 hv with hv | hv
      · obtain ⟨rfl, rfl⟩ := Prod.mk.inj hv
        exact ⟨j, (hknown j v).2 (.inr ⟨rfl, rfl⟩)⟩
      · obtain ⟨k, hk⟩ := h.known v (.inr ⟨j, hv⟩)
        exact ⟨k, (hknown k v).2 (.inl hk)⟩
    · have hold : s.Carries v → ∃ u, Member clusterNodes s' u ∧ Leads u v := fun hv => by
        obtain ⟨u, hu, hlead⟩ := h.carried v hv
        refine ⟨u, ?_, hlead⟩
        rw [Member, hregs]
        exact hu.imp_right fun ⟨j, hj⟩ => ⟨j, List.mem_cons_of_mem _ hj⟩
      rcases hv with ⟨k, hv⟩ | hv | hv
      · rcases (hknown k v).1 hv with hv | ⟨-, rfl⟩
        · exact hold (.inl ⟨k, hv⟩)
        · exact ⟨v, .inr ⟨i, hregs ▸ List.mem_cons_self⟩, .refl v⟩
      · exact hold (.inr (.inl (hmsg.1 ▸ hv)))
      · exact hold (.inr (.inr (hmsg.2 ▸ hv)))
  | deregistered => exact hP.elim

theorem of_run {virtualNodes : ℕ} {log : List GatewayResponse}
    (h : Run (GatewayCluster.step hashToUint32 peers)
      (fun s (a : GossipAction G ν) => s.NoneDeregistered a)
      (.boot hashToUint32 virtualNodes clusterNodes) log s) : Sourced clusterNodes s :=
  h.invariant (I := fun _ s => Sourced clusterNodes s)
    (boot hashToUint32 virtualNodes clusterNodes) fun hI hP hs => hI.step hP hs

end Sourced

/-- An url that normalisation leaves as it is leads to no other. -/
theorem eq_of_leads {u : JsString} (hu : normalized u = u) (h : Leads u v) : v = u := by
  obtain ⟨n, rfl⟩ := h
  exact Function.iterate_fixed hu n

/-! ## Exchanges -/

/-- What the receiver of a request knows once it has answered. -/
theorem known_answer {m : SyncRequest G} {es : List GatewayResponse}
    (hs : s.step hashToUint32 peers (.answer m : GossipAction G ν) = some (s', es))
    (hv : v ∈ m.nodes) : normalized v ∈ (s'.gateways m.receiver).known := by
  have hm : m ∈ s.requests := by
    by_contra hm
    simp [GatewayCluster.step, hm] at hs
  simp only [GatewayCluster.step, if_pos hm, postSync_syncBody, Option.some.injEq,
    Prod.mk.injEq] at hs
  obtain ⟨rfl, -⟩ := hs
  rw [gateways_setGateway, if_pos rfl]
  exact ((mergeNodes_spec m.nodes _).2 _).2 (.inr ⟨v, hv, rfl⟩)

theorem known_merge {m : SyncReply G} {es : List GatewayResponse}
    (hs : s.step hashToUint32 peers (.merge m : GossipAction G ν) = some (s', es))
    (hv : v ∈ m.nodes) : v ∈ (s'.gateways m.receiver).known := by
  have hm : m ∈ s.replies := by
    by_contra hm
    simp [GatewayCluster.step, hm] at hs
  simp only [GatewayCluster.step, if_pos hm, receiveSync_syncBody, Option.some.injEq,
    Prod.mk.injEq] at hs
  obtain ⟨rfl, -⟩ := hs
  rw [gateways_setGateway, if_pos rfl]
  exact mem_known_onReceiveNodes.2 (.inr hv)

namespace Exchanged

/-- The asker tells the peer what it knew, up to normalisation. -/
theorem tells (h : Exchanged hashToUint32 peers ν i j s s') (hv : v ∈ (s.gateways i).known) :
    normalized v ∈ (s'.gateways j).known := by
  obtain ⟨before, sent, meanwhile, answered, later, merged, after⟩ := h
  have hanswered := known_answer answered (before.known hv)
  exact after.known ((Quietly.of_step (a := .merge _) trivial merged).known (later.known hanswered))

/-- The peer tells the asker what it knew. -/
theorem told (h : Exchanged hashToUint32 peers ν i j s s') (hv : v ∈ (s.gateways j).known) :
    v ∈ (s'.gateways i).known := by
  obtain ⟨before, sent, meanwhile, answered, later, merged, after⟩ := h
  have hsent := (Quietly.of_step (a := .tick i) trivial sent).known (before.known hv)
  have hanswered := (Quietly.of_step (a := .answer _) trivial answered).known
    (meanwhile.known hsent)
  exact after.known (known_merge merged hanswered)

theorem extend {s₀ s₁ : GatewayCluster G} (h₀ : Quietly hashToUint32 peers ν s₀ s)
    (h : Exchanged hashToUint32 peers ν i j s s') (h₁ : Quietly hashToUint32 peers ν s' s₁) :
    Exchanged hashToUint32 peers ν i j s₀ s₁ := by
  obtain ⟨before, sent, meanwhile, answered, later, merged, after⟩ := h
  exact ⟨h₀.trans before, sent, meanwhile, answered, later, merged, after.trans h₁⟩

end Exchanged

/-! ## Rounds -/

/-- In rounds, knowledge spreads over the links, if normalisation leaves what is known as it is. -/
theorem spreads {ends : ℕ → GatewayCluster G} {n : ℕ}
    (hround : ∀ k < n, Round hashToUint32 peers ν (ends k) (ends (k + 1)))
    (hnormal : ∀ k < n, ∀ i, ∀ v ∈ ((ends k).gateways i).known, normalized v = v) :
    Spreads (net peers) (fun k i => {v | v ∈ ((ends k).gateways i).known}) n := by
  refine ⟨fun k hk i v hv => (hround k hk).quietly.known hv, fun k hk i j hadj v hv => ?_⟩
  rcases ((SimpleGraph.fromRel_adj _ i j).1 hadj).2 with hpeer | hpeer
  · have htold := ((hround k hk).exchanged i j hpeer).tells hv
    rwa [hnormal k hk i v hv] at htold
  · exact ((hround k hk).exchanged j i hpeer).told hv

/-- Nothing is in the way of an exchange. -/
theorem exists_exchanged (hashToUint32 : JsString → Hash) (ν : Type) (s : GatewayCluster G)
    (hj : j ∈ peers i) : ∃ s', Exchanged hashToUint32 peers ν i j s s' := by
  obtain ⟨s₂, es₁, hsent, hmem⟩ : ∃ s₂ es₁,
      s.step hashToUint32 peers (.tick i : GossipAction G ν) = some (s₂, es₁) ∧
        (⟨i, j, (s.gateways i).known⟩ : SyncRequest G) ∈ s₂.requests :=
    ⟨_, _, rfl, List.mem_append_right _ (List.mem_map.2 ⟨j, hj, rfl⟩)⟩
  obtain ⟨s₄, es₂, hanswered, hreply⟩ : ∃ s₄ es₂,
      s₂.step hashToUint32 peers (.answer ⟨i, j, (s.gateways i).known⟩ : GossipAction G ν) =
          some (s₄, es₂) ∧ (⟨i, (s₄.gateways j).known⟩ : SyncReply G) ∈ s₄.replies := by
    simp only [GatewayCluster.step, if_pos hmem, postSync_syncBody]
    exact ⟨_, _, rfl, by simp [gateways_setGateway]⟩
  obtain ⟨s₆, es₃, hmerged⟩ : ∃ s₆ es₃,
      s₄.step hashToUint32 peers (.merge ⟨i, (s₄.gateways j).known⟩ : GossipAction G ν) =
        some (s₆, es₃) := by
    simp only [GatewayCluster.step, if_pos hreply]
    exact ⟨_, _, rfl⟩
  exact ⟨s₆, .mk (.refl s) hsent (.refl s₂) hanswered (.refl s₄) hmerged (.refl s₆)⟩

theorem Exchanged.quietly (h : Exchanged hashToUint32 peers ν i j s s') :
    Quietly hashToUint32 peers ν s s' := by
  obtain ⟨before, sent, meanwhile, answered, later, merged, after⟩ := h
  have hsent := before.trans (.of_step (a := .tick i) trivial sent)
  have hanswered := (hsent.trans meanwhile).trans (.of_step (a := .answer _) trivial answered)
  exact ((hanswered.trans later).trans (.of_step (a := .merge _) trivial merged)).trans after

/-- Nothing is in the way of a round. -/
theorem exists_round [Fintype G] (hashToUint32 : JsString → Hash) (ν : Type)
    (s : GatewayCluster G) : ∃ s', Round hashToUint32 peers ν s s' := by
  have hlinks : ∀ links : List (G × G), (∀ l ∈ links, l.2 ∈ peers l.1) → ∃ s',
      Quietly hashToUint32 peers ν s s' ∧
        ∀ l ∈ links, Exchanged hashToUint32 peers ν l.1 l.2 s s' := by
    intro links hpeer
    induction links with
    | nil => exact ⟨s, .refl s, by simp⟩
    | cons l links ih =>
      rw [List.forall_mem_cons] at hpeer
      obtain ⟨s₁, hquiet, hrest⟩ := ih hpeer.2
      obtain ⟨s₂, hl⟩ := exists_exchanged hashToUint32 ν s₁ hpeer.1
      refine ⟨s₂, hquiet.trans hl.quietly, List.forall_mem_cons.2 ⟨?_, fun l' hl' => ?_⟩⟩
      · exact hl.extend hquiet (.refl s₂)
      · exact (hrest l' hl').extend (.refl s) hl.quietly
  obtain ⟨s', hquiet, hall⟩ := hlinks
    (Finset.univ.toList.flatMap fun i => (peers i).map (i, ·)) (by
      rintro ⟨i, j⟩ hl
      obtain ⟨i', -, hi'⟩ := List.mem_flatMap.1 hl
      obtain ⟨j', hj', heq⟩ := List.mem_map.1 hi'
      obtain ⟨rfl, rfl⟩ := Prod.mk.inj heq
      exact hj')
  exact ⟨s', hquiet, fun i j hj => hall (i, j) (by simpa using hj)⟩

/-! ## Convergence -/

theorem reached_rounds {ends : ℕ → GatewayCluster G} {n : ℕ}
    (hround : ∀ k < n, Round hashToUint32 peers ν (ends k) (ends (k + 1))) :
    ∀ {k}, k ≤ n → Quietly hashToUint32 peers ν (ends 0) (ends k)
  | 0, _ => .refl _
  | k + 1, hk => (reached_rounds hround (by omega)).trans (hround k (by omega)).quietly

theorem Quietly.sourced {virtualNodes : ℕ} {log : List GatewayResponse}
    (h : Run (GatewayCluster.step hashToUint32 peers)
      (fun s (a : GossipAction G ν) => s.NoneDeregistered a)
      (.boot hashToUint32 virtualNodes clusterNodes) log s)
    (hq : Quietly hashToUint32 peers ν s s') : Sourced clusterNodes s' := by
  obtain ⟨log', hrun⟩ := hq.noneDeregistered
  exact .of_run (h.trans hrun)

/-- If no node was deregistered and normalisation leaves the members as they are, then after as many
rounds as there are other gateways, and from then on as long as the members stay, every gateway of a
connected net knows the members and nothing else. -/
theorem gossip_converges [Fintype G] (hashToUint32 : JsString → Hash) (peers : G → List G)
    (hnet : (net peers).Connected) (virtualNodes : ℕ) (clusterNodes : G → Option JsString)
    {log : List GatewayResponse}
    (h : Run (GatewayCluster.step hashToUint32 peers)
      (fun s (a : GossipAction G ν) => s.NoneDeregistered a)
      (.boot hashToUint32 virtualNodes clusterNodes) log s)
    (hnormal : ∀ url, Member clusterNodes s url → normalized url = url)
    {ends : ℕ → GatewayCluster G} (hstart : ends 0 = s) {n : ℕ} (hn : Fintype.card G ≤ n + 1)
    (hround : ∀ k < n, Round hashToUint32 peers ν (ends k) (ends (k + 1)))
    (hlater : Quietly hashToUint32 peers ν (ends n) s') (i : G) (url : JsString) :
    url ∈ (s'.gateways i).known ↔ Member clusterNodes s url := by
  subst hstart
  have hmember : ∀ {t}, Quietly hashToUint32 peers ν (ends 0) t → ∀ i v, v ∈ (t.gateways i).known →
      Member clusterNodes (ends 0) v := by
    intro t ht i v hv
    obtain ⟨u, hu, hlead⟩ := (ht.sourced h).carried v (.inl ⟨i, hv⟩)
    have hu' : Member clusterNodes (ends 0) u := (member_congr ht.grow.1).1 hu
    rwa [eq_of_leads (hnormal u hu') hlead]
  have hreached : ∀ k ≤ n, Quietly hashToUint32 peers ν (ends 0) (ends k) :=
    fun k hk => reached_rounds hround hk
  constructor
  · exact hmember ((hreached n le_rfl).trans hlater) i url
  · intro hurl
    have hspreads : Spreads (net peers) (fun k i => {v | v ∈ ((ends k).gateways i).known}) n :=
      spreads hround fun k hk i v hv => hnormal v (hmember (hreached k hk.le) i v hv)
    obtain ⟨j, hj⟩ := (Sourced.of_run h).known url hurl
    have harrived : url ∈ ((ends n).gateways i).known := hspreads.everywhere hnet hn j i hj
    exact hlater.known harrived

instance (s : GatewayCluster G) : ∀ a : GossipAction G ν, Decidable (s.NoneDeregistered a)
  | .gateway _ (.deleteNodes _) => instDecidableFalse
  | .tick _ | .answer _ | .merge _ | .gateway _ .checkAll | .gateway _ (.checked _ _)
  | .gateway _ (.postNodes _) | .gateway _ (.postSync _) | .gateway _ (.receiveSync _) =>
    instDecidableTrue

/-- The first of two gateways is configured with a node, and another registers with the second. -/
theorem gossip_converges_two : ∃ s s' : GatewayCluster (Fin 2),
    Round md5Points twoGateways ℚ s s' ∧ (s.gateways 0).known = [js "http://node-1:3000"] ∧
    (s.gateways 1).known = [js "http://node-2:3000"] ∧
    ∀ i url, url ∈ (s'.gateways i).known ↔
      url = js "http://node-1:3000" ∨ url = js "http://node-2:3000" := by
  set clusterNodes : Fin 2 → Option JsString := ![some (js "http://node-1:3000"), none] with hnodes
  have hrun : ∃ (log : List GatewayResponse) (s : GatewayCluster (Fin 2)),
      Run (GatewayCluster.step md5Points twoGateways)
        (fun s (a : GossipAction (Fin 2) ℚ) => s.NoneDeregistered a)
        (.boot md5Points 1 clusterNodes) log s ∧
      s.registrations = [(1, js "http://node-2:3000")] ∧
      (s.gateways 0).known = [js "http://node-1:3000"] ∧
      (s.gateways 1).known = [js "http://node-2:3000"] :=
    exists_run_of_exec [.gateway 1 (.postNodes (urlBody (js "http://node-2:3000/")))]
      (by decide +kernel)
  obtain ⟨log, s, h, hregs, hfirst, hsecond⟩ := hrun
  have hmember : ∀ url, Member clusterNodes s url ↔
      url = js "http://node-1:3000" ∨ url = js "http://node-2:3000" := by
    intro url
    have hconfigured : resolveClusterNodes (clusterNodes 0) = [js "http://node-1:3000"] := by
      decide +kernel
    have hnone : resolveClusterNodes (clusterNodes 1) = [] := by decide
    simp [Member, hregs, Fin.exists_fin_two, hconfigured, hnone]
  have hnet : net twoGateways = ⊤ := by
    ext i j
    fin_cases i <;> fin_cases j <;> simp [net, twoGateways]
  obtain ⟨s', hround⟩ : ∃ s', Round md5Points twoGateways ℚ s s' := exists_round md5Points ℚ s
  let ends (k : ℕ) : GatewayCluster (Fin 2) := if k = 0 then s else s'
  have hstart : ends 0 = s := rfl
  refine ⟨s, s', hround, hfirst, hsecond, fun i url => ?_⟩
  rw [← hmember]
  refine gossip_converges (n := 1) md5Points twoGateways (hnet ▸ SimpleGraph.connected_top) 1
    clusterNodes h (fun url hurl => ?_) hstart le_rfl (fun k hk => ?_) (.refl _) i url
  · rcases (hmember url).1 hurl with rfl | rfl <;> decide +kernel
  · obtain rfl : k = 0 := by omega
    exact hround

/-! ## Routing -/

/-- Every gateway makes the steps of one gateway. -/
theorem gatewayStep_of_step {a : GossipAction G ν} {es : List GatewayResponse}
    (hs : s.step hashToUint32 peers a = some (s', es)) (i : G) :
    s'.gateways i = s.gateways i ∨ ∃ (b : GatewayAction ν) (es' : List GatewayResponse),
      gatewayStep hashToUint32 (s.gateways i) b = some (s'.gateways i, es') := by
  have hact : ∀ j (b : GatewayAction ν), s.act hashToUint32 j b = some (s', es) →
      s'.gateways i = s.gateways i ∨ ∃ (b : GatewayAction ν) (es' : List GatewayResponse),
        gatewayStep hashToUint32 (s.gateways i) b = some (s'.gateways i, es') := by
    intro j b hb
    obtain ⟨r, hr, he⟩ := Option.map_eq_some_iff.1 hb
    obtain ⟨rfl, rfl⟩ := Prod.mk.inj he
    rw [gateways_setGateway]
    split_ifs with hij
    · exact .inr ⟨b, r.2, hij ▸ hr⟩
    · left
      cases b <;> simp only [record] <;> split <;> rfl
  cases a with
  | tick j =>
    simp only [GatewayCluster.step, Option.some.injEq, Prod.mk.injEq] at hs
    obtain ⟨rfl, -⟩ := hs
    exact .inl rfl
  | answer m =>
    simp only [GatewayCluster.step] at hs
    split_ifs at hs with hm
    obtain ⟨rfl, rfl⟩ := Prod.mk.inj (Option.some.inj hs)
    simp only [gateways_setGateway]
    split_ifs with hi
    · exact .inr ⟨.postSync (some (Gateway.syncBody m.nodes)), _, by rw [hi]; rfl⟩
    · exact .inl rfl
  | merge m =>
    simp only [GatewayCluster.step] at hs
    split_ifs at hs with hm
    obtain ⟨rfl, rfl⟩ := Prod.mk.inj (Option.some.inj hs)
    simp only [gateways_setGateway]
    split_ifs with hi
    · exact .inr ⟨.receiveSync (Gateway.syncBody m.nodes), _, by rw [hi]; rfl⟩
    · exact .inl rfl
  | gateway j b =>
    cases b with
    | postSync body | receiveSync body => simp [GatewayCluster.step] at hs
    | checkAll | checked | postNodes | deleteNodes => exact hact j _ hs

theorem virtualNodes_kept {g g' : Gateway} {a : GatewayAction ν} {es : List GatewayResponse}
    (hs : gatewayStep hashToUint32 g a = some (g', es)) :
    g'.router.virtualNodes = g.router.virtualNodes := by
  have hadd : ∀ (r : HashRing) url, (r.add hashToUint32 url).virtualNodes = r.virtualNodes := by
    intro r url
    unfold HashRing.add
    split_ifs <;> rfl
  have hremove : ∀ (r : HashRing) url, (r.remove url).virtualNodes = r.virtualNodes := by
    intro r url
    unfold HashRing.remove
    split_ifs <;> rfl
  refine kept_step (I := fun g' => g'.router.virtualNodes = g.router.virtualNodes)
    (fun _ _ h => h) (fun url _ g' h => ?_) (fun url g' h => ?_) (fun url healthy g' h => ?_) hs rfl
  · unfold Gateway.addNode
    split_ifs
    · exact h
    · exact (hadd _ _).trans h
  · unfold Gateway.removeNode
    split_ifs
    · exact h
    · exact (hremove _ _).trans h
  · unfold Gateway.checked
    rcases g'.health.get? url with _ | wasHealthy
    · exact h
    · simp only
      split_ifs
      · exact h
      · exact (hadd _ _).trans h
      · exact (hremove _ _).trans h

/-- In every run, each gateway's router and health map are in step. -/
theorem inStep_of_run {virtualNodes : ℕ} {P : GatewayCluster G → GossipAction G ν → Prop}
    {log : List GatewayResponse}
    (h : Run (GatewayCluster.step hashToUint32 peers) P
      (.boot hashToUint32 virtualNodes clusterNodes) log s) (i : G) :
    InStep hashToUint32 (s.gateways i) ∧ (s.gateways i).router.virtualNodes = virtualNodes := by
  refine h.invariant (I := fun _ s => InStep hashToUint32 (s.gateways i) ∧
    (s.gateways i).router.virtualNodes = virtualNodes) ⟨.start _ _ _, ?_⟩ ?_
  · simp only [boot, Gateway.start, HashRing.new]
    generalize resolveClusterNodes (clusterNodes i) = nodes
    induction nodes using List.reverseRecOn with
    | nil => rfl
    | append_singleton nodes url ih =>
      rw [List.foldl_append, List.foldl_cons, List.foldl_nil, HashRing.add]
      split_ifs <;> exact ih
  · rintro _ t a t' es ⟨hstep, hv⟩ _ hs
    rcases gatewayStep_of_step hs i with heq | ⟨b, es', hb⟩
    · rw [heq]
      exact ⟨hstep, hv⟩
    · exact ⟨hstep.step hb, (virtualNodes_kept hb).trans hv⟩

omit [DecidableEq G] in
theorem healthyNodes_eq (h : InStep hashToUint32 (s.gateways i)) :
    (s.gateways i).router.nodeSet.toFinset = s.healthyNodes i := by
  ext url
  simp only [List.mem_toFinset, h.mem_iff, OrderedMap.get?_eq_some, healthyNodes, Gateway.status,
    List.mem_map, List.mem_filter]
  constructor
  · exact fun hurl => ⟨⟨url, true⟩, ⟨⟨_, hurl, rfl⟩, rfl⟩, rfl⟩
  · rintro ⟨_, ⟨⟨⟨_, healthy⟩, hurl, rfl⟩, hhealthy⟩, rfl⟩
    simp only at hhealthy
    exact hhealthy ▸ hurl

/-- Whatever their histories, two gateways that hold the same nodes for healthy route every key to
the same node, if no key lands where two of these have a point. -/
theorem gateways_route_alike (hashToUint32 : JsString → Hash) (peers : G → List G)
    (virtualNodes : ℕ) (clusterNodes : G → Option JsString) {log : List GatewayResponse}
    (h : Run (GatewayCluster.step hashToUint32 peers) (fun _ (_ : GossipAction G ν) => True)
      (.boot hashToUint32 virtualNodes clusterNodes) log s) (i j : G)
    (hhealthy : s.healthyNodes i = s.healthyNodes j)
    (hshared : NoSharedLanding hashToUint32 virtualNodes (s.healthyNodes i)) (key : JsString) :
    (s.gateways i).nodeFor hashToUint32 key = (s.gateways j).nodeFor hashToUint32 key := by
  obtain ⟨hi, hvi⟩ := inStep_of_run h i
  obtain ⟨hj, hvj⟩ := inStep_of_run h j
  refine hj.placed.getNode_congr hi.placed (hvi.trans hvj.symm) ?_ ?_ key
  · rw [healthyNodes_eq hi, healthyNodes_eq hj, hhealthy]
  · rwa [hvj, healthyNodes_eq hj, ← hhealthy]

/-- The two learn of the nodes in different orders, and the second of one that is down. -/
theorem gateways_route_alike_two : ∃ s : GatewayCluster (Fin 2),
    (s.gateways 0).known = [js "http://node-1:3000", js "http://node-2:3000"] ∧
    (s.gateways 1).known =
      [js "http://node-2:3000", js "http://node-1:3000", js "http://node-3:3000"] ∧
    ∀ key, (s.gateways 0).nodeFor md5Points key = (s.gateways 1).nodeFor md5Points key := by
  have hrun : ∃ (log : List GatewayResponse) (s : GatewayCluster (Fin 2)),
      Run (GatewayCluster.step md5Points twoGateways)
        (fun _ (_ : GossipAction (Fin 2) ℚ) => True) (.boot md5Points 1 fun _ => none) log s ∧
      (s.gateways 0).known = [js "http://node-1:3000", js "http://node-2:3000"] ∧
      (s.gateways 1).known =
        [js "http://node-2:3000", js "http://node-1:3000", js "http://node-3:3000"] ∧
      s.healthyNodes 0 = {js "http://node-1:3000", js "http://node-2:3000"} ∧
      s.healthyNodes 1 = {js "http://node-1:3000", js "http://node-2:3000"} :=
    exists_run_of_exec [.gateway 0 (.postNodes (urlBody (js "http://node-1:3000"))),
      .gateway 1 (.postNodes (urlBody (js "http://node-2:3000"))), .tick 0,
      .answer ⟨0, 1, [js "http://node-1:3000"]⟩,
      .merge ⟨0, [js "http://node-2:3000", js "http://node-1:3000"]⟩,
      .gateway 1 (.postNodes (urlBody (js "http://node-3:3000"))), .gateway 1 .checkAll,
      .gateway 1 (.checked 2 false)] (by decide +kernel)
  obtain ⟨log, s, h, hfirst, hsecond, hhealthy, hhealthy'⟩ := hrun
  have hpoint : ∀ n x, PointAt md5Points 1 n x ↔
      md5Points (n ++ js "#" ++ JsString.ofNat 0) = x := by
    simp [PointAt, virtualPoints]
  refine ⟨s, hfirst, hsecond, fun key => gateways_route_alike md5Points twoGateways 1
    (fun _ => none) h 0 1 (hhealthy.trans hhealthy'.symm) ?_ key⟩
  rw [hhealthy]
  intro _ x _ n hn m hm hpn hpm
  rw [hpoint] at hpn hpm
  subst hpn
  simp only [Finset.mem_insert, Finset.mem_singleton] at hn hm
  rcases hn with rfl | rfl <;> rcases hm with rfl | rfl
  · rfl
  · exact absurd hpm (by decide +kernel)
  · exact absurd hpm (by decide +kernel)
  · rfl

end GatewayCluster

end InkCache
