import InkCache.Proofs.GatewaySync

/-!
# A deregistered node stays away once it is isolated

Every url that a gateway learns by gossip was carried before, or is what normalisation makes of one
that was (`GossipStep`). So a url that nothing carried leads to stays out: from the deregistration
that finds it isolated, until it is registered again (`Clean`).
-/

namespace InkCache

open Lib

variable {u v w url : JsString}

/-! ## Normalisation -/

theorem trim_sublist (s : JsString) : s.trim.Sublist s := by
  have hinner : ((s.dropWhile JsString.isWhiteSpace).reverse.dropWhile
      JsString.isWhiteSpace).Sublist s.reverse :=
    (List.dropWhile_sublist _).trans (List.dropWhile_sublist _).reverse
  have houter := hinner.reverse
  rwa [List.reverse_reverse] at houter

theorem normalized_sublist (url : JsString) : (normalized url).Sublist url := by
  unfold normalized dropSlash
  split_ifs
  · exact (List.dropLast_sublist _).trans (trim_sublist url)
  · exact trim_sublist url

/-- Normalisation comes to rest after as many steps as the url is long. -/
theorem exists_iterate_le : ∀ (n : ℕ) (v : JsString),
    ∃ m ≤ v.length, normalized^[m] v = normalized^[n] v
  | 0, v => ⟨0, Nat.zero_le _, rfl⟩
  | n + 1, v => by
    obtain ⟨m, hm, heq⟩ := exists_iterate_le n (normalized v)
    rw [Function.iterate_succ_apply, ← heq]
    by_cases hfix : normalized v = v
    · exact ⟨m, hfix ▸ hm, by rw [hfix]⟩
    · have hlt : (normalized v).length < v.length :=
        lt_of_le_of_ne (normalized_sublist v).length_le fun hlen =>
          hfix ((normalized_sublist v).eq_of_length hlen)
      exact ⟨m + 1, by omega, rfl⟩

theorem leads_iff : Leads v u ↔
    ((List.range (v.length + 1)).any fun n => normalized^[n] v = u) = true := by
  simp only [List.any_eq_true, List.mem_range, decide_eq_true_eq]
  constructor
  · rintro ⟨n, h⟩
    obtain ⟨m, hm, heq⟩ := exists_iterate_le n v
    exact ⟨m, Nat.lt_succ_of_le hm, heq.trans h⟩
  · rintro ⟨n, -, h⟩
    exact ⟨n, h⟩

instance (v u : JsString) : Decidable (Leads v u) := decidable_of_iff _ leads_iff.symm

theorem Leads.refl (u : JsString) : Leads u u := ⟨0, rfl⟩

theorem Leads.of_normalized (h : Leads (normalized v) u) : Leads v u := by
  obtain ⟨n, hn⟩ := h
  exact ⟨n + 1, hn⟩

namespace GatewayCluster

variable {G ν : Type} {s s' : GatewayCluster G} {a : GossipAction G ν} {i j : G}

instance [Fintype G] [DecidableEq G] (s : GatewayCluster G) :
    ∀ a : GossipAction G ν, Decidable (s.Isolated a)
  | .gateway i (.deleteNodes body) => inferInstanceAs (Decidable (∀ url ∈
      (Gateway.bodyUrl body).map normalized, url ∈ (s.gateways i).known →
        (∀ j, (j, url) ∈ s.registrations → j = i) →
        (∀ j, ∀ v ∈ (s.gateways j).known, Leads v url → j = i ∧ v = url) ∧
        (∀ m ∈ s.requests, ∀ v ∈ m.nodes, ¬ Leads v url) ∧
        ∀ m ∈ s.replies, ∀ v ∈ m.nodes, ¬ Leads v url))
  | .gateway _ (.postNodes body) => inferInstanceAs (Decidable (∀ url ∈
      (Gateway.bodyUrl body).map normalized, ∀ r ∈ s.removals, Leads url r.2 → r.2 = url))
  | .tick _ | .answer _ | .merge _ | .gateway _ .checkAll | .gateway _ (.checked _ _)
  | .gateway _ (.postSync _) | .gateway _ (.receiveSync _) => instDecidableTrue

/-! ## What a step does -/

/-- What a step does to the urls that are known and carried, and to the records. -/
inductive GossipStep (s : GatewayCluster G) : GossipAction G ν → GatewayCluster G → Prop
  | gossip {a : GossipAction G ν} {s' : GatewayCluster G}
      (hregs : s'.registrations = s.registrations) (hrems : s'.removals = s.removals)
      (hgrow : ∀ j, ∀ v ∈ (s.gateways j).known, v ∈ (s'.gateways j).known)
      (hcarried : ∀ v, s'.Carries v → ∃ w, s.Carries w ∧ (v = w ∨ v = normalized w)) :
      GossipStep s a s'
  | registered {i : G} {body : Option (Json ν)} {s' : GatewayCluster G} {url : JsString}
      (hurl : url ∈ (Gateway.bodyUrl body).map normalized)
      (hregs : s'.registrations = (i, url) :: s.registrations) (hrems : s'.removals = s.removals)
      (hmsg : s'.requests = s.requests ∧ s'.replies = s.replies)
      (hknown : ∀ j v, v ∈ (s'.gateways j).known ↔ v ∈ (s.gateways j).known ∨ j = i ∧ v = url) :
      GossipStep s (.gateway i (.postNodes body)) s'
  | deregistered {i : G} {body : Option (Json ν)} {s' : GatewayCluster G} {url : JsString}
      (hurl : url ∈ (Gateway.bodyUrl body).map normalized)
      (hregs : ∀ r, r ∈ s'.registrations ↔ r ∈ s.registrations ∧ r ≠ (i, url))
      (hrems : ∀ r, r ∈ s'.removals ↔
        r ∈ s.removals ∨ r = (i, url) ∧ url ∈ (s.gateways i).known)
      (hmsg : s'.requests = s.requests ∧ s'.replies = s.replies)
      (hknown : ∀ j v, v ∈ (s'.gateways j).known ↔
        v ∈ (s.gateways j).known ∧ ¬ (j = i ∧ v = url)) :
      GossipStep s (.gateway i (.deleteNodes body)) s'

/-- A step that changes neither what is known nor the messages. -/
theorem GossipStep.quiet (hregs : s'.registrations = s.registrations)
    (hrems : s'.removals = s.removals)
    (hmsg : s'.requests = s.requests ∧ s'.replies = s.replies)
    (hknown : ∀ j v, v ∈ (s'.gateways j).known ↔ v ∈ (s.gateways j).known) :
    GossipStep s a s' := by
  refine .gossip hregs hrems (fun j v => (hknown j v).2) fun v hv => ⟨v, ?_, .inl rfl⟩
  unfold Carries at hv ⊢
  simpa only [hknown, hmsg.1, hmsg.2] using hv

theorem gossipStep_tick {peers : G → List G} : GossipStep s (.tick i : GossipAction G ν) { s with
    requests := s.requests ++ (peers i).map fun j =>
      { sender := i, receiver := j, nodes := (s.gateways i).known } } := by
  refine .gossip rfl rfl (fun j v hv => hv) fun v hv => ⟨v, ?_, .inl rfl⟩
  rcases hv with hv | ⟨m, hm, hv⟩ | hv
  · exact .inl hv
  · rcases List.mem_append.1 hm with hm | hm
    · exact .inr (.inl ⟨m, hm, hv⟩)
    · obtain ⟨j, -, rfl⟩ := List.mem_map.1 hm
      exact .inl ⟨i, hv⟩
  · exact .inr (.inr hv)

/-- What the receiver of a request knows afterwards was carried, up to normalisation. -/
theorem carries_merged {m : SyncRequest G} (hm : m ∈ s.requests) {g : Gateway}
    (hg : ∀ v, v ∈ g.known ↔
      v ∈ (s.gateways m.receiver).known ∨ ∃ u ∈ m.nodes, normalized u = v) :
    ∀ v ∈ g.known, ∃ w, s.Carries w ∧ (v = w ∨ v = normalized w) := by
  intro v hv
  rcases (hg v).1 hv with hv | ⟨w, hw, rfl⟩
  · exact ⟨v, .inl ⟨m.receiver, hv⟩, .inl rfl⟩
  · exact ⟨w, .inr (.inl ⟨m, hm, hw⟩), .inr rfl⟩

/-! ## The invariant -/

/-- A directly registered node is known; and nothing that is carried leads to a url that was removed
and is not registered. -/
structure Clean (s : GatewayCluster G) : Prop where
  registered : ∀ i url, (i, url) ∈ s.registrations → url ∈ (s.gateways i).known
  gone : ∀ i url, (i, url) ∈ s.removals → s.Deregistered url →
    ∀ v, s.Carries v → ¬ Leads v url

namespace Clean

theorem gossip (h : Clean s) (hregs : s'.registrations = s.registrations)
    (hrems : s'.removals = s.removals)
    (hgrow : ∀ j, ∀ v ∈ (s.gateways j).known, v ∈ (s'.gateways j).known)
    (hcarried : ∀ v, s'.Carries v → ∃ w, s.Carries w ∧ (v = w ∨ v = normalized w)) : Clean s' := by
  refine ⟨fun i url hr => ?_, fun i url hr hd v hv hlead => ?_⟩
  · rw [hregs] at hr
    exact hgrow i url (h.registered i url hr)
  · rw [hrems] at hr
    unfold Deregistered at hd
    rw [hregs] at hd
    obtain ⟨w, hw, rfl | rfl⟩ := hcarried v hv
    · exact h.gone i url hr hd v hw hlead
    · exact h.gone i url hr hd w hw hlead.of_normalized

theorem registration (h : Clean s) (hregs : s'.registrations = (i, url) :: s.registrations)
    (hrems : s'.removals = s.removals)
    (hmsg : s'.requests = s.requests ∧ s'.replies = s.replies)
    (hknown : ∀ j v, v ∈ (s'.gateways j).known ↔ v ∈ (s.gateways j).known ∨ j = i ∧ v = url)
    (hnormal : ∀ r ∈ s.removals, Leads url r.2 → r.2 = url) : Clean s' := by
  refine ⟨fun j u hr => ?_, fun j u hr hd v hv hlead => ?_⟩
  · rw [hregs, List.mem_cons, Prod.mk.injEq] at hr
    rw [hknown]
    rcases hr with hr | hr
    · exact .inr hr
    · exact .inl (h.registered j u hr)
  rw [hrems] at hr
  have hd' : s.Deregistered u := fun k hk => hd k (hregs ▸ List.mem_cons_of_mem _ hk)
  have hne : u ≠ url := by
    rintro rfl
    exact hd i (hregs ▸ List.mem_cons_self)
  rcases hv with ⟨k, hv⟩ | hv | hv
  · rcases (hknown k v).1 hv with hv | ⟨-, rfl⟩
    · exact h.gone j u hr hd' v (.inl ⟨k, hv⟩) hlead
    · exact hne (hnormal _ hr hlead)
  · rw [hmsg.1] at hv
    exact h.gone j u hr hd' v (.inr (.inl hv)) hlead
  · rw [hmsg.2] at hv
    exact h.gone j u hr hd' v (.inr (.inr hv)) hlead

theorem deregistration (h : Clean s)
    (hregs : ∀ r, r ∈ s'.registrations ↔ r ∈ s.registrations ∧ r ≠ (i, url))
    (hrems : ∀ r, r ∈ s'.removals ↔ r ∈ s.removals ∨ r = (i, url) ∧ url ∈ (s.gateways i).known)
    (hmsg : s'.requests = s.requests ∧ s'.replies = s.replies)
    (hknown : ∀ j v, v ∈ (s'.gateways j).known ↔ v ∈ (s.gateways j).known ∧ ¬ (j = i ∧ v = url))
    (hisolated : url ∈ (s.gateways i).known → (∀ j, (j, url) ∈ s.registrations → j = i) →
      ∀ v, s'.Carries v → ¬ Leads v url) : Clean s' := by
  have hback : ∀ v, s'.Carries v → s.Carries v := fun v hv => by
    rcases hv with ⟨k, hv⟩ | hv | hv
    · exact .inl ⟨k, ((hknown k v).1 hv).1⟩
    · exact .inr (.inl (hmsg.1 ▸ hv))
    · exact .inr (.inr (hmsg.2 ▸ hv))
  refine ⟨fun j u hr => ?_, fun j u hr hd v hv hlead => ?_⟩
  · obtain ⟨hr, hne⟩ := (hregs _).1 hr
    rw [ne_eq, Prod.mk.injEq] at hne
    exact (hknown j u).2 ⟨h.registered j u hr, hne⟩
  by_cases hu : u = url
  swap
  · -- another url is removed, and registered, as it was before
    have hd' : s.Deregistered u := fun k hk => hd k ((hregs _).2 ⟨hk, by simp [hu]⟩)
    rcases (hrems _).1 hr with hr | ⟨hr, -⟩
    · exact h.gone j u hr hd' v (hback v hv) hlead
    · exact hu (Prod.mk.inj hr).2
  subst hu
  have honly : ∀ k, (k, u) ∈ s.registrations → k = i := fun k hk => by
    by_contra hki
    exact hd k ((hregs _).2 ⟨hk, by simp [hki]⟩)
  by_cases hk : u ∈ (s.gateways i).known
  · exact hisolated hk honly v hv hlead
  · -- nothing was registered here, since it would be known
    have hd' : s.Deregistered u := fun k hreg => by
      obtain rfl := honly k hreg
      exact hk (h.registered k u hreg)
    rcases (hrems _).1 hr with hr | ⟨-, hk'⟩
    · exact h.gone j u hr hd' v (hback v hv) hlead
    · exact hk hk'

theorem step (h : Clean s) (hP : s.Isolated a) (hs : GossipStep s a s') : Clean s' := by
  cases hs with
  | gossip hregs hrems hgrow hcarried => exact h.gossip hregs hrems hgrow hcarried
  | registered hurl hregs hrems hmsg hknown =>
    exact h.registration hregs hrems hmsg hknown (hP _ hurl)
  | deregistered hurl hregs hrems hmsg hknown =>
    refine h.deregistration hregs hrems hmsg hknown fun hk honly v hv hlead => ?_
    obtain ⟨hall, hreq, hrep⟩ := hP _ hurl hk honly
    rcases hv with ⟨k, hv⟩ | ⟨m, hm, hv⟩ | ⟨m, hm, hv⟩
    · obtain ⟨hv, hne⟩ := (hknown k v).1 hv
      exact hne (hall k v hv hlead)
    · exact hreq m (hmsg.1 ▸ hm) v hv hlead
    · exact hrep m (hmsg.2 ▸ hm) v hv hlead

end Clean

/-! ## The steps of the model -/

variable [DecidableEq G] {hashToUint32 : JsString → Hash} {peers : G → List G}
  {es : List GatewayResponse}

theorem gateways_setGateway (g : Gateway) :
    (s.setGateway i g).gateways j = if j = i then g else s.gateways j := by
  simp only [setGateway, Function.update_apply]

theorem mem_known_setGateway {g : Gateway} : v ∈ ((s.setGateway i g).gateways j).known ↔
    (j = i ∧ v ∈ g.known) ∨ (j ≠ i ∧ v ∈ (s.gateways j).known) := by
  rw [gateways_setGateway]
  split_ifs with hj <;> simp [hj]

/-- A handler after which its gateway knows what it knew before. -/
theorem gossipStep_setGateway {g : Gateway} (hg : ∀ v, v ∈ g.known ↔ v ∈ (s.gateways i).known) :
    GossipStep s a (s.setGateway i g) := by
  refine .quiet rfl rfl ⟨rfl, rfl⟩ fun j v => ?_
  rw [mem_known_setGateway, hg]
  by_cases hj : j = i <;> simp [hj]

theorem gossipStep_postNodes (body : Option (Json ν)) :
    GossipStep s (.gateway i (.postNodes body))
      ((s.record i (.postNodes body)).setGateway i
        ((s.gateways i).postNodes hashToUint32 body).1) := by
  rcases hb : Gateway.bodyUrl body with _ | url
  · simp only [Gateway.postNodes, record, hb]
    exact gossipStep_setGateway fun v => Iff.rfl
  have hurl : (Gateway.bodyUrl body).map normalized = some (normalized url) := by rw [hb]; rfl
  refine .registered hurl ?_ ?_ ?_ fun j v => ?_
  · simp [record, hb, setGateway]
  · simp [record, hb, setGateway]
  · simp [record, hb, setGateway]
  · rw [mem_known_setGateway, mem_known_postNodes hb, record, hb]
    by_cases hj : j = i <;> simp [hj]

theorem gossipStep_deleteNodes (body : Option (Json ν)) :
    GossipStep s (.gateway i (.deleteNodes body))
      ((s.record i (.deleteNodes body)).setGateway i ((s.gateways i).deleteNodes body).1) := by
  rcases hb : Gateway.bodyUrl body with _ | url
  · simp only [Gateway.deleteNodes, record, hb]
    exact gossipStep_setGateway fun v => Iff.rfl
  have hurl : (Gateway.bodyUrl body).map normalized = some (normalized url) := by rw [hb]; rfl
  refine .deregistered hurl (fun r => ?_) (fun r => ?_) ?_ fun j v => ?_
  · simp [record, hb, setGateway]
  · simp only [record, hb, setGateway]
    split_ifs with hk <;> simp [hk, or_comm]
  · simp [record, hb, setGateway]
  · rw [mem_known_setGateway, mem_known_deleteNodes hb, record, hb]
    by_cases hj : j = i <;> simp [hj]

theorem gossipStep_act {g : GatewayAction ν} (hquiet : ∀ body, g ≠ .postSync body)
    (hquiet' : ∀ body, g ≠ .receiveSync body)
    (hs : s.act hashToUint32 i g = some (s', es)) : GossipStep s (.gateway i g) s' := by
  rw [act, Option.map_eq_some_iff] at hs
  obtain ⟨r, hr, he⟩ := hs
  rw [Prod.mk.injEq] at he
  obtain ⟨rfl, rfl⟩ := he
  cases g with
  | checkAll =>
    simp only [gatewayStep, Option.some.injEq] at hr
    subst hr
    exact gossipStep_setGateway fun v => Iff.rfl
  | checked k healthy =>
    simp only [gatewayStep] at hr
    split at hr
    · simp at hr
    · rw [Option.some.injEq] at hr
      subst hr
      exact gossipStep_setGateway fun v => known_checked _ _ _
  | postNodes body =>
    simp only [gatewayStep, Option.some.injEq] at hr
    subst hr
    exact gossipStep_postNodes body
  | deleteNodes body =>
    simp only [gatewayStep, Option.some.injEq] at hr
    subst hr
    exact gossipStep_deleteNodes body
  | postSync body => exact absurd rfl (hquiet body)
  | receiveSync body => exact absurd rfl (hquiet' body)

/-- A request is merged by its receiver, and answered with all it knows then. -/
theorem gossipStep_answer {m : SyncRequest G} (hm : m ∈ s.requests)
    (hs : s.step hashToUint32 peers (.answer m : GossipAction G ν) = some (s', es)) :
    GossipStep s (.answer m : GossipAction G ν) s' := by
  simp only [step, if_pos hm, postSync_syncBody, Option.some.injEq, Prod.mk.injEq] at hs
  obtain ⟨rfl, -⟩ := hs
  have hg : ∀ v, v ∈ ((s.gateways m.receiver).mergeNodes hashToUint32 m.nodes
      (s.gateways m.receiver).known).1.known ↔
      v ∈ (s.gateways m.receiver).known ∨ ∃ u ∈ m.nodes, normalized u = v :=
    (mergeNodes_spec m.nodes _).2
  have hnew := carries_merged hm hg
  refine .gossip rfl rfl (fun j v hv => ?_) fun v hv => ?_
  · simp only [gateways_setGateway]
    split_ifs with hj
    · subst hj
      exact (hg v).2 (.inl hv)
    · exact hv
  · rcases hv with ⟨j, hv⟩ | ⟨m', hm', hv⟩ | ⟨m', hm', hv⟩
    · simp only [gateways_setGateway] at hv
      split_ifs at hv with hj
      · exact hnew v hv
      · exact ⟨v, .inl ⟨j, hv⟩, .inl rfl⟩
    · exact ⟨v, .inr (.inl ⟨m', List.mem_of_mem_erase hm', hv⟩), .inl rfl⟩
    · rcases List.mem_cons.1 hm' with rfl | hm'
      · exact hnew v hv
      · exact ⟨v, .inr (.inr ⟨m', hm', hv⟩), .inl rfl⟩

/-- A reply is merged by the gateway that asked. -/
theorem gossipStep_merge {m : SyncReply G} (hm : m ∈ s.replies)
    (hs : s.step hashToUint32 peers (.merge m : GossipAction G ν) = some (s', es)) :
    GossipStep s (.merge m : GossipAction G ν) s' := by
  simp only [step, if_pos hm, receiveSync_syncBody, Option.some.injEq, Prod.mk.injEq] at hs
  obtain ⟨rfl, -⟩ := hs
  refine .gossip rfl rfl (fun j v hv => ?_) fun v hv => ⟨v, ?_, .inl rfl⟩
  · simp only [gateways_setGateway]
    split_ifs with hj
    · subst hj
      exact mem_known_onReceiveNodes.2 (.inl hv)
    · exact hv
  · rcases hv with ⟨j, hv⟩ | hv | ⟨m', hm', hv⟩
    · simp only [gateways_setGateway] at hv
      split_ifs at hv with hj
      · rcases mem_known_onReceiveNodes.1 hv with hv | hv
        · exact .inl ⟨m.receiver, hv⟩
        · exact .inr (.inr ⟨m, hm, hv⟩)
      · exact .inl ⟨j, hv⟩
    · exact .inr (.inl hv)
    · exact .inr (.inr ⟨m', List.mem_of_mem_erase hm', hv⟩)

theorem gossipStep (hs : s.step hashToUint32 peers a = some (s', es)) : GossipStep s a s' := by
  cases a with
  | tick i =>
    simp only [step, Option.some.injEq, Prod.mk.injEq] at hs
    obtain ⟨rfl, -⟩ := hs
    exact gossipStep_tick
  | answer m =>
    have hm : m ∈ s.requests := by
      by_contra hm
      simp [step, hm] at hs
    exact gossipStep_answer hm hs
  | merge m =>
    have hm : m ∈ s.replies := by
      by_contra hm
      simp [step, hm] at hs
    exact gossipStep_merge hm hs
  | gateway i g =>
    cases g with
    | checkAll => exact gossipStep_act (by simp) (by simp) hs
    | checked k healthy => exact gossipStep_act (by simp) (by simp) hs
    | postNodes body => exact gossipStep_act (by simp) (by simp) hs
    | deleteNodes body => exact gossipStep_act (by simp) (by simp) hs
    | postSync body | receiveSync body => simp [step] at hs

/-! ## Runs -/

theorem Clean.sticks (h : Clean s) : s.Sticks hashToUint32 peers ν := by
  intro a s' es hs ha i url hr hd _ hlearned
  have hcarries : s'.Carries url := .inl ⟨i, hlearned⟩
  cases gossipStep hs with
  | gossip hregs hrems hgrow hcarried =>
    obtain ⟨w, hw, hurl⟩ := hcarried url hcarries
    refine h.gone i url hr hd w hw ?_
    rcases hurl with rfl | hurl
    · exact .refl url
    · exact .of_normalized (hurl ▸ .refl _)
  | registered | deregistered => simp [GossipAction.isGossip] at ha

/-- In every run in which each deregistration that takes a node's last direct registration away
finds its url isolated, gossip never puts a deregistered node back where it was removed. -/
theorem deregistration_sticks (hashToUint32 : JsString → Hash) (peers : G → List G)
    (virtualNodes : ℕ) (clusterNodes : G → Option JsString) {log : List GatewayResponse}
    (h : Run (GatewayCluster.step hashToUint32 peers)
      (fun s (a : GossipAction G ν) => s.Isolated a)
      (.boot hashToUint32 virtualNodes clusterNodes) log s) :
    s.Sticks hashToUint32 peers ν := by
  have hclean : Clean s := by
    refine h.invariant (I := fun _ s => Clean s) ⟨?_, ?_⟩ fun hI hP hs => hI.step hP (gossipStep hs)
    · simp [boot]
    · simp [boot]
  exact hclean.sticks

/-- Two gateways, each the other's peer. -/
def twoGateways (i : Fin 2) : List (Fin 2) := [1 - i]

/-- A node is deregistered before the next tick, and later another registers. -/
theorem deregistration_sticks_isolated :
    ∃ (log : List GatewayResponse) (s : GatewayCluster (Fin 2)),
    Run (GatewayCluster.step md5Points twoGateways)
      (fun s (a : GossipAction (Fin 2) ℚ) => s.Isolated a)
      (.boot md5Points 1 fun _ => none) log s ∧
    (0, js "http://node-1:3000") ∈ s.removals ∧
    (s.gateways 1).known = [js "http://node-2:3000"] ∧ s.Sticks md5Points twoGateways ℚ := by
  have hrun : ∃ (log : List GatewayResponse) (s : GatewayCluster (Fin 2)),
      Run (GatewayCluster.step md5Points twoGateways)
        (fun s (a : GossipAction (Fin 2) ℚ) => s.Isolated a)
        (.boot md5Points 1 fun _ => none) log s ∧
      (0, js "http://node-1:3000") ∈ s.removals ∧
      (s.gateways 1).known = [js "http://node-2:3000"] :=
    exists_run_of_exec [.gateway 0 (.postNodes (urlBody (js "http://node-1:3000"))),
      .gateway 0 (.deleteNodes (urlBody (js "http://node-1:3000"))),
      .gateway 0 (.postNodes (urlBody (js "http://node-2:3000"))), .tick 0,
      .answer ⟨0, 1, [js "http://node-2:3000"]⟩] (by decide +kernel)
  obtain ⟨log, s, h, hremoved, hknown⟩ := hrun
  exact ⟨log, s, h, hremoved, hknown,
    deregistration_sticks md5Points twoGateways 1 (fun _ => none) h⟩

/-- A node registers with one gateway, the other learns of it by gossip, and it is deregistered
where it registered; the next tick of the other puts it back. -/
theorem deregistration_undone : ∃ (log : List GatewayResponse) (s : GatewayCluster (Fin 2)),
    Run (GatewayCluster.step md5Points twoGateways)
      (fun _ (_ : GossipAction (Fin 2) ℚ) => True) (.boot md5Points 1 fun _ => none) log s ∧
    ¬ s.Sticks md5Points twoGateways ℚ := by
  have hrun : ∃ (log : List GatewayResponse) (s : GatewayCluster (Fin 2)),
      Run (GatewayCluster.step md5Points twoGateways)
        (fun _ (_ : GossipAction (Fin 2) ℚ) => True) (.boot md5Points 1 fun _ => none) log s ∧
      (0, js "http://node-1:3000") ∈ s.removals ∧ s.registrations = [] ∧
      js "http://node-1:3000" ∉ (s.gateways 0).known ∧
      ((s.step md5Points twoGateways (.answer ⟨1, 0, [js "http://node-1:3000"]⟩ :
        GossipAction (Fin 2) ℚ)).any fun r =>
          js "http://node-1:3000" ∈ (r.1.gateways 0).known) = true :=
    exists_run_of_exec [.gateway 0 (.postNodes (urlBody (js "http://node-1:3000"))), .tick 0,
      .answer ⟨0, 1, [js "http://node-1:3000"]⟩,
      .gateway 0 (.deleteNodes (urlBody (js "http://node-1:3000"))), .tick 1] (by decide +kernel)
  obtain ⟨log, s, h, hremoved, hregs, hunknown, hback⟩ := hrun
  refine ⟨log, s, h, fun hsticks => ?_⟩
  rw [Option.any_eq_true] at hback
  obtain ⟨⟨s', es⟩, hs, hlearned⟩ := hback
  exact hsticks _ s' es hs rfl 0 _ hremoved (fun i => by simp [hregs]) hunknown
    (of_decide_eq_true hlearned)

end GatewayCluster

end InkCache
