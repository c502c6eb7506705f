import InkCache.GatewaySync
import InkCache.Proofs.Gateway

/-!
# What gossip spreads

A sync adds to the peer what normalisation makes of the urls of the sender, and to the sender the
urls of the peer as they are (`syncWithPeer_known`). So the two know the same afterwards, and keep
knowing it, exactly if normalisation leads nowhere else (`sync_equalises_iff`).
-/

namespace InkCache

open Lib

variable {hashToUint32 : JsString → Hash} {g : Gateway} {url v u : JsString}

/-! ## Known nodes -/

theorem known_eq (g : Gateway) : g.known = g.health.keys := by
  simp [Gateway.known, Gateway.status, OrderedMap.keys]

theorem mem_known : v ∈ g.known ↔ (g.health.get? v).isSome := by
  rw [known_eq, Option.isSome_iff_ne_none, ne_eq, OrderedMap.get?_eq_none, not_not]

theorem known_addNode (url : JsString) (g : Gateway) :
    (g.addNode hashToUint32 url).known = if url ∈ g.known then g.known else g.known ++ [url] := by
  unfold Gateway.addNode
  by_cases h : url ∈ g.known
  · rw [if_pos (mem_known.1 h), if_pos h]
  · rw [if_neg fun hs => h (mem_known.2 hs), if_neg h, known_eq, known_eq]
    rw [known_eq] at h
    exact OrderedMap.keys_set_new h

theorem mem_known_addNode :
    v ∈ (g.addNode hashToUint32 url).known ↔ v ∈ g.known ∨ v = url := by
  rw [known_addNode]
  split_ifs with h
  · constructor
    · exact .inl
    · rintro (hv | rfl)
      · exact hv
      · exact h
  · simp

theorem addNode_of_known (h : url ∈ g.known) : g.addNode hashToUint32 url = g :=
  if_pos (mem_known.1 h)

theorem mem_known_removeNode : v ∈ (g.removeNode url).known ↔ v ∈ g.known ∧ v ≠ url := by
  unfold Gateway.removeNode
  split_ifs with h
  · constructor
    · intro hv
      refine ⟨hv, ?_⟩
      rintro rfl
      rw [mem_known, Option.isSome_iff_ne_none] at hv
      exact hv (Option.isNone_iff_eq_none.1 h)
    · exact And.left
  · simp [known_eq, OrderedMap.keys_delete]

/-- `POST /nodes` with a url, whether or not the node is known already. -/
theorem mem_known_postNodes {ν : Type} {body : Option (Json ν)}
    (hb : Gateway.bodyUrl body = some url) :
    v ∈ (g.postNodes hashToUint32 body).1.known ↔ v ∈ g.known ∨ v = normalized url := by
  simp only [Gateway.postNodes, hb]
  split_ifs with hk
  · constructor
    · exact .inl
    · rintro (hv | rfl)
      · exact hv
      · exact hk
  · exact mem_known_addNode

theorem mem_known_deleteNodes {ν : Type} {body : Option (Json ν)}
    (hb : Gateway.bodyUrl body = some url) :
    v ∈ (g.deleteNodes body).1.known ↔ v ∈ g.known ∧ v ≠ normalized url := by
  simp only [Gateway.deleteNodes, hb]
  exact mem_known_removeNode

theorem known_checked (url : JsString) (healthy : Bool) (g : Gateway) :
    v ∈ (g.checked hashToUint32 url healthy).known ↔ v ∈ g.known := by
  unfold Gateway.checked
  rcases hg : g.health.get? url with _ | wasHealthy
  · rfl
  simp only
  split_ifs
  · rfl
  · rw [mem_known, mem_known, OrderedMap.get?_set]
    split_ifs with hv <;> simp [hv, hg]
  · rw [mem_known, mem_known, OrderedMap.get?_set]
    split_ifs with hv <;> simp [hv, hg]

/-- What the loop of `POST /cluster/sync` leaves, if it starts from what the gateway knows. -/
theorem mergeNodes_spec : ∀ (nodes : List JsString) (g : Gateway),
    (g.mergeNodes hashToUint32 nodes g.known).2 =
        (g.mergeNodes hashToUint32 nodes g.known).1.known ∧
      ∀ v, v ∈ (g.mergeNodes hashToUint32 nodes g.known).1.known ↔
        v ∈ g.known ∨ ∃ u ∈ nodes, normalized u = v
  | [], g => by simp [Gateway.mergeNodes]
  | url :: nodes, g => by
    unfold Gateway.mergeNodes
    split_ifs with h
    · obtain ⟨heq, hmem⟩ := mergeNodes_spec nodes g
      refine ⟨heq, fun v => ?_⟩
      rw [hmem, List.exists_mem_cons_iff]
      constructor
      · rintro (hv | hv)
        · exact .inl hv
        · exact .inr (.inr hv)
      · rintro (hv | rfl | hv)
        · exact .inl hv
        · exact .inl h
        · exact .inr hv
    · have hknown : (g.addNode hashToUint32 (normalized url)).known =
          g.known ++ [normalized url] := by rw [known_addNode, if_neg h]
      obtain ⟨heq, hmem⟩ := mergeNodes_spec nodes (g.addNode hashToUint32 (normalized url))
      rw [← hknown]
      refine ⟨heq, fun v => ?_⟩
      rw [hmem, hknown, List.mem_append, List.mem_singleton, List.exists_mem_cons_iff,
        eq_comm (a := v), or_assoc]

theorem mergeNodes_of_known : ∀ {nodes known : List JsString} {g : Gateway},
    (∀ u ∈ nodes, normalized u ∈ known) → g.mergeNodes hashToUint32 nodes known = (g, known)
  | [], known, g, _ => rfl
  | url :: nodes, known, g, h => by
    unfold Gateway.mergeNodes
    rw [if_pos (h url List.mem_cons_self)]
    exact mergeNodes_of_known fun u hu => h u (List.mem_cons_of_mem _ hu)

theorem mem_known_onReceiveNodes : ∀ {nodes : List JsString} {g : Gateway},
    v ∈ (g.onReceiveNodes hashToUint32 nodes).known ↔ v ∈ g.known ∨ v ∈ nodes
  | [], g => by simp [Gateway.onReceiveNodes]
  | url :: nodes, g => by
    have ih : v ∈ ((g.addNode hashToUint32 url).onReceiveNodes hashToUint32 nodes).known ↔
        v ∈ (g.addNode hashToUint32 url).known ∨ v ∈ nodes := mem_known_onReceiveNodes
    rw [mem_known_addNode, or_assoc, ← List.mem_cons] at ih
    exact ih

theorem onReceiveNodes_of_known : ∀ {nodes : List JsString} {g : Gateway},
    (∀ u ∈ nodes, u ∈ g.known) → g.onReceiveNodes hashToUint32 nodes = g
  | [], g, _ => rfl
  | url :: nodes, g, h => by
    have hadd : g.addNode hashToUint32 url = g := addNode_of_known (h url List.mem_cons_self)
    have ih : g.onReceiveNodes hashToUint32 nodes = g :=
      onReceiveNodes_of_known fun u hu => h u (List.mem_cons_of_mem _ hu)
    unfold Gateway.onReceiveNodes at ih ⊢
    rw [List.foldl_cons, hadd, ih]

/-! ## Bodies -/

section Bodies

variable {ν : Type}

theorem strings_map : ∀ nodes : List JsString,
    Gateway.strings (nodes.map (Json.str : JsString → Json ν)) = some nodes
  | [] => rfl
  | url :: nodes => by
    rw [List.map_cons, Gateway.strings, strings_map nodes, Option.map_some]

theorem bodyNodes_syncBody (nodes : List JsString) :
    Gateway.bodyNodes (Gateway.syncBody nodes : Json ν) = some nodes := by
  have hfield : readField (Gateway.syncBody nodes : Json ν) (js "nodes") =
      .value (.arr (nodes.map .str)) := rfl
  rw [Gateway.bodyNodes, hfield]
  exact strings_map nodes

end Bodies

/-! ## One round trip -/

section RoundTrip

variable {ν : Type} {a b : Gateway}

theorem postSync_syncBody (nodes : List JsString) (b : Gateway) :
    b.postSync hashToUint32 (some (Gateway.syncBody nodes : Json ν)) =
      ((b.mergeNodes hashToUint32 nodes b.known).1,
        .synced (b.mergeNodes hashToUint32 nodes b.known).1.known) := by
  have hbody : Gateway.bodyNodes (orEmpty (some (Gateway.syncBody nodes : Json ν))) = some nodes :=
    bodyNodes_syncBody nodes
  rw [Gateway.postSync, hbody]
  simp only [(mergeNodes_spec nodes b).1]

theorem receiveSync_syncBody (nodes : List JsString) (a : Gateway) :
    a.receiveSync hashToUint32 (Gateway.syncBody nodes : Json ν) =
      a.onReceiveNodes hashToUint32 nodes := by
  rw [Gateway.receiveSync, bodyNodes_syncBody]

theorem syncWithPeer_eq (a b : Gateway) : syncWithPeer hashToUint32 ν a b =
    (a.onReceiveNodes hashToUint32 (b.mergeNodes hashToUint32 a.known b.known).1.known,
      (b.mergeNodes hashToUint32 a.known b.known).1) := by
  simp only [syncWithPeer, postSync_syncBody, receiveSync_syncBody]

/-- What each of the two knows after a round trip. -/
theorem syncWithPeer_known (ν : Type) (hashToUint32 : JsString → Hash) (a b : Gateway) :
    (∀ v, v ∈ (syncWithPeer hashToUint32 ν a b).2.known ↔
      v ∈ b.known ∨ ∃ u ∈ a.known, normalized u = v) ∧
    ∀ v, v ∈ (syncWithPeer hashToUint32 ν a b).1.known ↔
      v ∈ a.known ∨ v ∈ (syncWithPeer hashToUint32 ν a b).2.known := by
  rw [syncWithPeer_eq]
  exact ⟨(mergeNodes_spec a.known b).2, fun v => mem_known_onReceiveNodes⟩

/-- A round trip changes nothing if the peer knows all that normalisation makes of the urls it is
sent, and the sender all that the peer knows. -/
theorem syncWithPeer_of_known (ha : ∀ u ∈ a.known, normalized u ∈ b.known)
    (hb : ∀ u ∈ b.known, u ∈ a.known) : syncWithPeer hashToUint32 ν a b = (a, b) := by
  rw [syncWithPeer_eq, mergeNodes_of_known ha, onReceiveNodes_of_known hb]

/-- A round trip leaves both gateways with what either knew, and the next changes nothing, exactly
if normalisation makes of their urls what one of them knows, and no url is only known to the sender
that the peer does not get by it. -/
theorem sync_equalises_iff (ν : Type) (hashToUint32 : JsString → Hash)
    (a b : Gateway) : Equalised hashToUint32 ν a b ↔ Mergeable a b := by
  obtain ⟨hpeer, hsender⟩ := syncWithPeer_known ν hashToUint32 a b
  unfold Equalised Mergeable
  simp only [Finset.ext_iff, List.mem_toFinset, Finset.mem_union]
  set r := syncWithPeer hashToUint32 ν a b
  constructor
  · rintro ⟨hleft, hright, hagain⟩
    refine ⟨fun u hu => (hpeer u).1 ((hright u).2 (.inl hu)), fun u hu => ?_⟩
    obtain ⟨hpeer', -⟩ := syncWithPeer_known ν hashToUint32 r.1 r.2
    rw [hagain] at hpeer'
    exact (hright _).1 ((hpeer' _).2 (.inr ⟨u, (hleft u).2 hu, rfl⟩))
  · rintro ⟨hsent, hnormal⟩
    have hright : ∀ v, v ∈ r.2.known ↔ v ∈ a.known ∨ v ∈ b.known := fun v => by
      rw [hpeer]
      constructor
      · rintro (hv | ⟨u, hu, rfl⟩)
        · exact .inr hv
        · exact hnormal u (.inl hu)
      · rintro (hv | hv)
        · exact hsent v hv
        · exact .inl hv
    have hleft : ∀ v, v ∈ r.1.known ↔ v ∈ a.known ∨ v ∈ b.known := fun v => by
      rw [hsender, hright, ← or_assoc, or_self]
    refine ⟨hleft, hright, syncWithPeer_of_known (fun u hu => ?_) fun u hu => ?_⟩
    · exact (hright _).2 (hnormal u ((hleft u).1 hu))
    · exact (hleft u).2 ((hright u).1 hu)

/-- A node is registered with two slashes at its end, of which registration drops one; the peer
drops the other. -/
theorem sync_not_equalised : ∃ (log : List GatewayResponse) (a : Gateway),
    Run (gatewayStep md5Points) (fun _ (_ : GatewayAction ℚ) => True)
      (.start md5Points 1 (resolveClusterNodes none)) log a ∧
    ¬ Equalised md5Points ℚ a (.start md5Points 1 (resolveClusterNodes none)) := by
  have hrun : ∃ (log : List GatewayResponse) (a : Gateway),
      Run (gatewayStep md5Points) (fun _ (_ : GatewayAction ℚ) => True)
        (.start md5Points 1 (resolveClusterNodes none)) log a ∧
      a.known = [js "http://node-1:3000/"] ∧
      (syncWithPeer md5Points ℚ a (.start md5Points 1 (resolveClusterNodes none))).2.known =
        [js "http://node-1:3000"] :=
    exists_run_of_exec [.postNodes (urlBody (js "http://node-1:3000//"))] (by decide +kernel)
  obtain ⟨log, a, h, hknown, hpeer⟩ := hrun
  refine ⟨log, a, h, ?_⟩
  rintro ⟨-, hright, -⟩
  rw [hpeer, hknown] at hright
  have hmem : js "http://node-1:3000/" ∈ [js "http://node-1:3000"].toFinset := by
    rw [hright]
    simp
  exact absurd hmem (by decide)

end RoundTrip

end InkCache
