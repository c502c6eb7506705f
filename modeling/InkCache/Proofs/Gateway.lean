import InkCache.Gateway
import InkCache.Proofs.HashRing

/-!
# The router and the health map of a gateway

Both are changed together, by `addNode`, `removeNode` and a check whose verdict is new, so the nodes
of the router are at any time the known nodes that are healthy (`InStep`).
-/

namespace InkCache

open Lib

variable {hashToUint32 : JsString → Hash} {g g' : Gateway} {url u key : JsString}

/-! ## The node set of a ring -/

theorem mem_nodeSet_add {r : HashRing} {d n : JsString} :
    n ∈ (r.add hashToUint32 d).nodeSet ↔ n = d ∨ n ∈ r.nodeSet := by
  unfold HashRing.add
  split_ifs with hd
  · constructor
    · exact .inr
    · rintro (rfl | hn)
      · exact hd
      · exact hn
  · simp [or_comm]

theorem mem_nodeSet_remove {r : HashRing} {d n : JsString} :
    n ∈ (r.remove d).nodeSet ↔ n ∈ r.nodeSet ∧ n ≠ d := by
  unfold HashRing.remove
  split_ifs with hd
  · simp
  · constructor
    · intro hn
      exact ⟨hn, fun he => hd (he ▸ hn)⟩
    · exact And.left

theorem placed_new (hashToUint32 : JsString → Hash) (nodes : List JsString) (virtualNodes : ℕ) :
    Placed hashToUint32 (.new hashToUint32 nodes virtualNodes) := by
  induction nodes using List.reverseRecOn with
  | nil => exact .empty virtualNodes
  | append_singleton nodes d ih =>
    unfold HashRing.new at ih ⊢
    rw [List.foldl_append, List.foldl_cons, List.foldl_nil]
    exact ih.add d

/-! ## What a step is made of -/

/-- The urls that an action adds if they are not known. -/
def GatewayAction.named {ν : Type} : GatewayAction ν → List JsString
  | postNodes body => (Gateway.bodyUrl body).toList.map normalized
  | postSync body => ((Gateway.bodyNodes (orEmpty body)).getD []).map normalized
  | receiveSync body => (Gateway.bodyNodes body).getD []
  | checkAll | checked _ _ | deleteNodes _ => []

section Kept

variable {I : Gateway → Prop}

theorem kept_mergeNodes : ∀ {nodes known : List JsString} {g : Gateway},
    (∀ url ∈ nodes.map normalized, ∀ g, I g → I (g.addNode hashToUint32 url)) → I g →
    I (g.mergeNodes hashToUint32 nodes known).1
  | [], _, _, _, h => h
  | url :: nodes, known, g, hadd, h => by
    rw [List.map_cons, List.forall_mem_cons] at hadd
    unfold Gateway.mergeNodes
    split_ifs
    · exact kept_mergeNodes hadd.2 h
    · exact kept_mergeNodes hadd.2 (hadd.1 g h)

theorem kept_onReceiveNodes {nodes : List JsString}
    (hadd : ∀ url ∈ nodes, ∀ g, I g → I (g.addNode hashToUint32 url)) (h : I g) :
    I (g.onReceiveNodes hashToUint32 nodes) := by
  induction nodes generalizing g with
  | nil => exact h
  | cons url nodes ih =>
    rw [List.forall_mem_cons] at hadd
    exact ih hadd.2 (hadd.1 g h)

/-- What is kept by adding a node, by removing one and by a check, whichever pings are in flight, is
kept by every step. -/
theorem kept_step {ν : Type} {a : GatewayAction ν} {es : List GatewayResponse}
    (hchecks : ∀ (g : Gateway) (checks : List JsString), I g → I { g with checks })
    (hadd : ∀ url ∈ a.named, ∀ g, I g → I (g.addNode hashToUint32 url))
    (hremove : ∀ url g, I g → I (g.removeNode url))
    (hchecked : ∀ url healthy g, I g → I (g.checked hashToUint32 url healthy))
    (hs : gatewayStep hashToUint32 g a = some (g', es)) (h : I g) : I g' := by
  cases a with
  | checkAll =>
    simp only [gatewayStep, Option.some.injEq, Prod.mk.injEq] at hs
    obtain ⟨rfl, -⟩ := hs
    exact hchecks g _ h
  | checked i healthy =>
    simp only [gatewayStep] at hs
    rcases hi : g.checks[i]? with _ | url <;> rw [hi] at hs
    · simp at hs
    · simp only [Option.some.injEq, Prod.mk.injEq] at hs
      obtain ⟨rfl, -⟩ := hs
      exact hchecked url healthy _ (hchecks g _ h)
  | postNodes body =>
    simp only [gatewayStep, Gateway.postNodes, Option.some.injEq, Prod.mk.injEq] at hs
    obtain ⟨rfl, -⟩ := hs
    rcases hb : Gateway.bodyUrl body with _ | url
    · exact h
    · simp only
      split_ifs
      · exact h
      · exact hadd _ (by simp [GatewayAction.named, hb]) g h
  | deleteNodes body =>
    simp only [gatewayStep, Gateway.deleteNodes, Option.some.injEq, Prod.mk.injEq] at hs
    obtain ⟨rfl, -⟩ := hs
    rcases Gateway.bodyUrl body with _ | url
    · exact h
    · exact hremove _ g h
  | postSync body =>
    simp only [gatewayStep, Gateway.postSync, Option.some.injEq, Prod.mk.injEq] at hs
    obtain ⟨rfl, -⟩ := hs
    rcases hb : Gateway.bodyNodes (orEmpty body) with _ | nodes
    · exact h
    · refine kept_mergeNodes (fun url hurl => hadd url ?_) h
      rwa [GatewayAction.named, hb]
  | receiveSync body =>
    simp only [gatewayStep, Gateway.receiveSync, Option.some.injEq, Prod.mk.injEq] at hs
    obtain ⟨rfl, -⟩ := hs
    rcases hb : Gateway.bodyNodes body with _ | nodes
    · exact h
    · refine kept_onReceiveNodes (fun url hurl => hadd url ?_) h
      rwa [GatewayAction.named, hb]

end Kept

/-! ## In step -/

/-- The nodes of the router are the known nodes that are healthy. -/
structure InStep (hashToUint32 : JsString → Hash) (g : Gateway) : Prop where
  placed : Placed hashToUint32 g.router
  mem_iff : ∀ url, url ∈ g.router.nodeSet ↔ g.health.get? url = some true

namespace InStep

theorem addNode (h : InStep hashToUint32 g) (url : JsString) :
    InStep hashToUint32 (g.addNode hashToUint32 url) := by
  unfold Gateway.addNode
  split_ifs with hknown
  · exact h
  refine ⟨h.placed.add url, fun u => ?_⟩
  simp only [mem_nodeSet_add, OrderedMap.get?_set]
  split_ifs with hu
  · simp [hu]
  · simp [hu, h.mem_iff]

theorem removeNode (h : InStep hashToUint32 g) (url : JsString) :
    InStep hashToUint32 (g.removeNode url) := by
  unfold Gateway.removeNode
  split_ifs with hunknown
  · exact h
  refine ⟨h.placed.remove url, fun u => ?_⟩
  simp only [mem_nodeSet_remove, OrderedMap.get?_delete]
  split_ifs with hu
  · simp [hu]
  · simp [hu, h.mem_iff]

theorem checked (h : InStep hashToUint32 g) (url : JsString) (healthy : Bool) :
    InStep hashToUint32 (g.checked hashToUint32 url healthy) := by
  unfold Gateway.checked
  rcases g.health.get? url with _ | wasHealthy
  · exact h
  simp only
  split_ifs with hsame hhealthy
  · exact h
  · refine ⟨h.placed.add url, fun u => ?_⟩
    simp only [mem_nodeSet_add, OrderedMap.get?_set, hhealthy]
    split_ifs with hu
    · simp [hu]
    · simp [hu, h.mem_iff]
  · refine ⟨h.placed.remove url, fun u => ?_⟩
    simp only [mem_nodeSet_remove, OrderedMap.get?_set, Bool.eq_false_of_not_eq_true hhealthy]
    split_ifs with hu
    · simp [hu]
    · simp [hu, h.mem_iff]

theorem start (hashToUint32 : JsString → Hash) (virtualNodes : ℕ) (nodes : List JsString) :
    InStep hashToUint32 (.start hashToUint32 virtualNodes nodes) := by
  refine ⟨placed_new hashToUint32 nodes virtualNodes, fun url => ?_⟩
  induction nodes using List.reverseRecOn with
  | nil => simp [Gateway.start, HashRing.new, HashRing.empty]
  | append_singleton nodes d ih =>
    simp only [Gateway.start, HashRing.new, List.foldl_append, List.foldl_cons,
      List.foldl_nil] at ih ⊢
    rw [mem_nodeSet_add, OrderedMap.get?_set, ih]
    split_ifs with hd <;> simp [hd]

theorem step {ν : Type} {a : GatewayAction ν} {es : List GatewayResponse}
    (h : InStep hashToUint32 g) (hs : gatewayStep hashToUint32 g a = some (g', es)) :
    InStep hashToUint32 g' :=
  kept_step (fun _ _ h => ⟨h.placed, h.mem_iff⟩) (fun url _ _ h => h.addNode url)
    (fun url _ h => h.removeNode url) (fun url healthy _ h => h.checked url healthy) hs h

theorem nodeFor (h : InStep hashToUint32 g) (hk : g.nodeFor hashToUint32 key = some url) :
    g.health.get? url = some true := by
  obtain ⟨-, -, hmem, -⟩ := h.placed.getNode_eq_some hk
  exact (h.mem_iff url).1 hmem

theorem healthyCount (h : InStep hashToUint32 g) :
    g.healthyCount = (g.status.filter NodeHealth.healthy).length := by
  have hnodup : ((g.health.entries.filter fun e => e.2).map Prod.fst).Nodup :=
    g.health.nodup.sublist (List.filter_sublist.map _)
  have hperm : g.router.nodeSet.Perm ((g.health.entries.filter fun e => e.2).map Prod.fst) := by
    refine (List.perm_ext_iff_of_nodup h.placed.nodup hnodup).2 fun url => ?_
    simp [h.mem_iff, OrderedMap.get?_eq_some]
  rw [Gateway.healthyCount, hperm.length_eq, List.length_map, Gateway.status, List.filter_map,
    List.length_map]
  rfl

end InStep

/-- A check of a node that is no longer known changes nothing. -/
theorem checked_unknown {healthy : Bool} (h : g.health.get? url = none) :
    g.checked hashToUint32 url healthy = g := by
  unfold Gateway.checked
  rw [h]

theorem checked_get?_none {healthy : Bool} (h : g.health.get? u = none) :
    (g.checked hashToUint32 url healthy).health.get? u = none := by
  by_cases hu : u = url
  · subst hu
    rw [checked_unknown h, h]
  · unfold Gateway.checked
    rcases g.health.get? url with _ | wasHealthy
    · exact h
    · simp only
      split_ifs
      · exact h
      · simp only [OrderedMap.get?_set, if_neg hu, h]
      · simp only [OrderedMap.get?_set, if_neg hu, h]

/-- In every state of every run: the nodes of the router are the known nodes that are healthy, each
once; a key is routed to one of these; a check that comes back makes no unknown node known, nor a
node of the router; and the healthy nodes are as many as are counted. -/
theorem router_in_step {ν : Type} (hashToUint32 : JsString → Hash)
    (virtualNodes : ℕ) (nodes : List JsString) {log : List GatewayResponse}
    (h : Run (gatewayStep hashToUint32) (fun _ (_ : GatewayAction ν) => True)
      (.start hashToUint32 virtualNodes nodes) log g) :
    (∀ url, url ∈ g.router.nodeSet ↔ g.health.get? url = some true) ∧ g.router.nodeSet.Nodup ∧
    (∀ key url, g.nodeFor hashToUint32 key = some url → g.health.get? url = some true) ∧
    (∀ i healthy g' es,
      gatewayStep hashToUint32 g (.checked i healthy : GatewayAction ν) = some (g', es) →
      ∀ url, g.health.get? url = none →
        g'.health.get? url = none ∧ url ∉ g'.router.nodeSet) ∧
    g.healthyCount = (g.status.filter NodeHealth.healthy).length := by
  have hstep : InStep hashToUint32 g :=
    h.invariant (I := fun _ g => InStep hashToUint32 g)
      (InStep.start hashToUint32 virtualNodes nodes) fun hI _ hs => hI.step hs
  refine ⟨hstep.mem_iff, hstep.placed.nodup, fun key url hk => hstep.nodeFor hk,
    fun i healthy g' es hs url hnone => ?_, hstep.healthyCount⟩
  have hnone' : g'.health.get? url = none := by
    simp only [gatewayStep] at hs
    rcases hi : g.checks[i]? with _ | url' <;> rw [hi] at hs
    · simp at hs
    · simp only [Option.some.injEq, Prod.mk.injEq] at hs
      obtain ⟨rfl, -⟩ := hs
      exact checked_get?_none hnone
  refine ⟨hnone', fun hmem => ?_⟩
  rw [(hstep.step hs).mem_iff, hnone'] at hmem
  simp at hmem

/-- The first 32 bits of the MD5 of the texts of some points. -/
def md5Points (s : JsString) : Hash :=
  if s = js "http://node-1:3000#0" then 4039140095
  else if s = js "http://node-2:3000#0" then 401144792
  else if s = js "http://node-1:3000/#0" then 3323455122
  else 0

/-- The body that names a node. -/
def urlBody (url : JsString) : Option (Json ℚ) := some (.obj [(js "url", .str url)])

/-- One node goes down and comes back; another is deregistered while it is being checked. -/
theorem router_in_step_flapping : ∃ (log : List GatewayResponse) (g : Gateway),
    Run (gatewayStep md5Points) (fun _ (_ : GatewayAction ℚ) => True)
      (.start md5Points 1 [js "http://node-1:3000"]) log g ∧
    g.known = [js "http://node-1:3000"] ∧ g.healthyCount = 1 ∧
    (g.status.filter NodeHealth.healthy).length = 1 := by
  have hrun : ∃ (log : List GatewayResponse) (g : Gateway),
      Run (gatewayStep md5Points) (fun _ (_ : GatewayAction ℚ) => True)
        (.start md5Points 1 [js "http://node-1:3000"]) log g ∧
      g.known = [js "http://node-1:3000"] ∧ g.healthyCount = 1 :=
    exists_run_of_exec [.checkAll, .checked 0 false,
      .postNodes (urlBody (js " http://node-2:3000/")), .checkAll,
      .deleteNodes (urlBody (js "http://node-2:3000")), .checked 1 true, .checked 0 true]
      (by decide +kernel)
  obtain ⟨log, g, h, hknown, hcount⟩ := hrun
  obtain ⟨-, -, -, -, hhealthy⟩ := router_in_step md5Points 1 [js "http://node-1:3000"] h
  exact ⟨log, g, h, hknown, hcount, hhealthy ▸ hcount⟩

end InkCache
