import InkCache.HashRing
import InkCache.Lib.LowerBound

/-!
# The ring is the sorted points of its nodes

Whatever led to it, the ring is the points of the nodes in insertion order, sorted stably by hash
(`Placed`), and `getNode` answers the node of the first point clockwise (`getNode_eq`). A change of
the nodes therefore moves only the keys of the node that changes. Where two nodes share a hash, the
one added first has the earlier point, so there the history shows.
-/

namespace InkCache

open Lib

variable {hashToUint32 : JsString → Hash} {r : HashRing} {d node key : JsString}
  {ring : List RingPoint}

/-! ## Lookup -/

/-- The loop of `getNode` looks for the first point that is not below `h`. -/
theorem search_eq_lowerBound (h : Hash) (lo hi : ℕ) :
    HashRing.search ring h lo hi = lowerBound (fun p => p.hash < h) ring lo hi := by
  fun_induction HashRing.search ring h lo hi with
  | case1 lo hi hlt mid hnone =>
    rw [lowerBound, if_pos hlt]
    simp only [show ring[(lo + hi) / 2]? = none from hnone]
  | case2 lo hi hlt mid p hp hless ih =>
    rw [lowerBound, if_pos hlt]
    simp only [show ring[(lo + hi) / 2]? = some p from hp]
    rw [if_pos (decide_eq_true hless), ih]
  | case3 lo hi hlt mid p hp hless ih =>
    rw [lowerBound, if_pos hlt]
    simp only [show ring[(lo + hi) / 2]? = some p from hp]
    rw [if_neg (by simpa using hless), ih]
  | case4 lo hi hge => rw [lowerBound, if_neg hge]

/-- The loop ends where the points before are below `h` and those from there on are not. -/
theorem search_spec (hs : SortedBy RingPoint.hash ring) (h : Hash) :
    HashRing.search ring h 0 ring.length ≤ ring.length ∧
      (∀ p ∈ ring.take (HashRing.search ring h 0 ring.length), p.hash < h) ∧
      ∀ p ∈ ring.drop (HashRing.search ring h 0 ring.length), h ≤ p.hash := by
  have hbelow : BelowFirst (fun p => p.hash < h) ring := hs.imp fun {p q} hpq hq => by
    rw [decide_eq_true_eq] at hq ⊢
    exact hpq.trans_lt hq
  rw [search_eq_lowerBound]
  obtain ⟨hle, hbefore, hafter⟩ := lowerBound_spec hbelow 0 ring.length le_rfl (Nat.zero_le _)
    (by simp) (by simp)
  exact ⟨hle, fun p hp => of_decide_eq_true (hbefore p hp),
    fun p hp => not_lt.1 (of_decide_eq_false (hafter p hp))⟩

/-- On a sorted ring, `getNode` answers the node of the first point clockwise. -/
theorem getNode_eq (hs : SortedBy RingPoint.hash r.ring) (key : JsString) :
    r.getNode hashToUint32 key =
      (firstFrom RingPoint.hash (hashToUint32 key) r.ring).map RingPoint.node := by
  unfold HashRing.getNode
  split_ifs with hlen
  · rw [List.length_eq_zero_iff.1 hlen]
    rfl
  obtain ⟨hle, hbefore, hafter⟩ := search_spec hs (hashToUint32 key)
  simp only
  set i := HashRing.search r.ring (hashToUint32 key) 0 r.ring.length
  congr 1
  unfold firstFrom
  split_ifs with hend
  · rw [hend, List.take_length] at hbefore
    have hnone : r.ring.find? (fun p => hashToUint32 key ≤ p.hash) = none := by
      rw [List.find?_eq_none]
      intro p hp
      simpa using hbefore p hp
    rw [hnone, Option.none_or, List.head?_eq_getElem?]
  · rcases hp : r.ring[i]? with _ | p
    · rw [List.getElem?_eq_none_iff] at hp
      omega
    · obtain ⟨-, hdrop⟩ := take_drop_of_getElem? hp
      have hfound : r.ring.find? (fun p => hashToUint32 key ≤ p.hash) = some p := by
        refine List.find?_eq_some_iff_append.2 ⟨?_, r.ring.take i, r.ring.drop (i + 1), ?_, ?_⟩
        · simpa using hafter p (by rw [hdrop]; exact List.mem_cons_self)
        · rw [← hdrop, List.take_append_drop]
        · intro q hq
          simpa using hbefore q hq
      rw [hfound, Option.some_or]

/-! ## The invariant -/

/-- The ring is the points of the nodes, sorted. -/
structure Placed (hashToUint32 : JsString → Hash) (r : HashRing) : Prop where
  nodup : r.nodeSet.Nodup
  ring : r.ring = stableSort RingPoint.hash
    (r.nodeSet.flatMap (virtualPoints hashToUint32 r.virtualNodes))

theorem mem_virtualPoints {n : ℕ} {p : RingPoint} :
    p ∈ virtualPoints hashToUint32 n node ↔
      p.node = node ∧ ∃ i < n, hashToUint32 (node ++ js "#" ++ JsString.ofNat i) = p.hash := by
  unfold virtualPoints
  simp only [List.mem_map, List.mem_range]
  constructor
  · rintro ⟨i, hi, rfl⟩
    exact ⟨rfl, i, hi, rfl⟩
  · rintro ⟨rfl, i, hi, hh⟩
    exact ⟨i, hi, by rw [hh]⟩

namespace Placed

theorem sorted (h : Placed hashToUint32 r) : SortedBy RingPoint.hash r.ring := by
  rw [h.ring]
  exact sortedBy_stableSort _

theorem mem_ring (h : Placed hashToUint32 r) {p : RingPoint} : p ∈ r.ring ↔
    p.node ∈ r.nodeSet ∧ p ∈ virtualPoints hashToUint32 r.virtualNodes p.node := by
  rw [h.ring, mem_stableSort, List.mem_flatMap]
  constructor
  · rintro ⟨n, hn, hp⟩
    obtain ⟨rfl, -⟩ := mem_virtualPoints.1 hp
    exact ⟨hn, hp⟩
  · rintro ⟨hn, hp⟩
    exact ⟨p.node, hn, hp⟩

theorem empty (n : ℕ) : Placed hashToUint32 (.empty n) := ⟨List.nodup_nil, rfl⟩

theorem add (h : Placed hashToUint32 r) (d : JsString) :
    Placed hashToUint32 (r.add hashToUint32 d) := by
  unfold HashRing.add
  split_ifs with hd
  · exact h
  refine ⟨?_, ?_⟩
  · rw [List.nodup_append]
    refine ⟨h.nodup, List.nodup_singleton _, fun a ha b hb => ?_⟩
    rw [List.mem_singleton.1 hb]
    exact fun had => hd (had ▸ ha)
  · simp only [List.flatMap_append, List.flatMap_cons, List.flatMap_nil, List.append_nil]
    rw [h.ring, stableSort_append_stableSort]

theorem filter_flatMap {n : ℕ} : ∀ (l : List JsString),
    (l.flatMap (virtualPoints hashToUint32 n)).filter (fun p => p.node ≠ node) =
      (l.filter fun m => m ≠ node).flatMap (virtualPoints hashToUint32 n)
  | [] => rfl
  | m :: l => by
    rw [List.flatMap_cons, List.filter_append, filter_flatMap l, List.filter_cons]
    by_cases hm : m = node
    · have hnil : (virtualPoints hashToUint32 n m).filter (fun p => p.node ≠ node) = [] := by
        rw [List.filter_eq_nil_iff]
        intro p hp
        simp [(mem_virtualPoints.1 hp).1, hm]
      rw [hnil, List.nil_append]
      simp [hm]
    · have hall : (virtualPoints hashToUint32 n m).filter (fun p => p.node ≠ node) =
          virtualPoints hashToUint32 n m := by
        rw [List.filter_eq_self]
        intro p hp
        simp [(mem_virtualPoints.1 hp).1, hm]
      rw [hall]
      simp [hm]

theorem remove (h : Placed hashToUint32 r) (d : JsString) :
    Placed hashToUint32 (r.remove d) := by
  unfold HashRing.remove
  split_ifs with hd
  · refine ⟨h.nodup.sublist List.filter_sublist, ?_⟩
    simp only
    rw [h.ring, ← stableSort_filter, filter_flatMap]
  · exact h

end Placed

theorem placed_after (hashToUint32 : JsString → Hash) (n : ℕ) (ops : List RingOp) :
    Placed hashToUint32 (.after hashToUint32 n ops) := by
  induction ops using List.reverseRecOn with
  | nil => exact .empty n
  | append_singleton ops op ih =>
    unfold HashRing.after at ih ⊢
    rw [List.foldl_append, List.foldl_cons, List.foldl_nil]
    cases op with
    | add d => exact ih.add d
    | remove d => exact ih.remove d

/-! ## Minimal disruption -/

/-- Removing a node leaves the keys of the others where they are. -/
theorem getNode_remove_of_ne (h : Placed hashToUint32 r)
    (hd : r.getNode hashToUint32 key ≠ some d) :
    (r.remove d).getNode hashToUint32 key = r.getNode hashToUint32 key := by
  rw [getNode_eq (h.remove d).sorted]
  rw [getNode_eq h.sorted] at hd ⊢
  unfold HashRing.remove
  split_ifs with hmem
  · rcases hp : firstFrom RingPoint.hash (hashToUint32 key) r.ring with _ | p
    · rw [firstFrom_eq_none] at hp
      simp only [hp]
      rfl
    · rw [hp, Option.map_some, ne_eq, Option.some.injEq] at hd
      simp only
      rw [firstFrom_filter hp (by simpa using hd)]
  · rfl

/-- Removing a node that was just added undoes the addition. -/
theorem remove_add (h : Placed hashToUint32 r) (hd : d ∉ r.nodeSet) :
    (r.add hashToUint32 d).remove d = r := by
  have hring : (stableSort RingPoint.hash
      (r.ring ++ virtualPoints hashToUint32 r.virtualNodes d)).filter (fun p => p.node ≠ d) =
        r.ring := by
    have hold : r.ring.filter (fun p => p.node ≠ d) = r.ring := by
      rw [List.filter_eq_self]
      intro p hp
      have hne : p.node ≠ d := fun he => hd (he ▸ (h.mem_ring.1 hp).1)
      simpa using hne
    have hnew :
        (virtualPoints hashToUint32 r.virtualNodes d).filter (fun p => p.node ≠ d) = [] := by
      rw [List.filter_eq_nil_iff]
      intro p hp
      simp [(mem_virtualPoints.1 hp).1]
    rw [← stableSort_filter, List.filter_append, hold, hnew, List.append_nil,
      stableSort_of_sortedBy h.sorted]
  have hset : (r.nodeSet ++ [d]).filter (fun n => n ≠ d) = r.nodeSet := by
    rw [List.filter_append, List.filter_eq_self.2 fun n hn => ?_]
    · simp
    · have hne : n ≠ d := fun he => hd (he ▸ hn)
      simpa using hne
  unfold HashRing.add
  rw [if_neg hd]
  unfold HashRing.remove
  rw [if_pos (by simp), hset, hring]

/-- On a ring reached by any changes: adding a node gives it some keys and moves no other; removing
one moves its keys only; adding a present node or removing an absent one changes nothing. -/
theorem minimal_disruption (hashToUint32 : JsString → Hash) (virtualNodes : ℕ) (ops : List RingOp)
    (node key : JsString) :
    let r := HashRing.after hashToUint32 virtualNodes ops
    (node ∉ r.nodeSet →
      (r.add hashToUint32 node).getNode hashToUint32 key = r.getNode hashToUint32 key ∨
        (r.add hashToUint32 node).getNode hashToUint32 key = some node) ∧
    (r.getNode hashToUint32 key ≠ some node →
      (r.remove node).getNode hashToUint32 key = r.getNode hashToUint32 key) ∧
    (node ∈ r.nodeSet → r.add hashToUint32 node = r) ∧
    (node ∉ r.nodeSet → r.remove node = r) := by
  intro r
  have h : Placed hashToUint32 r := placed_after hashToUint32 virtualNodes ops
  refine ⟨fun hnew => ?_, fun hne => getNode_remove_of_ne h hne, fun hmem => if_pos hmem,
    fun hmem => if_neg hmem⟩
  by_cases hd : (r.add hashToUint32 node).getNode hashToUint32 key = some node
  · exact .inr hd
  · have hback := getNode_remove_of_ne (h.add node) hd
    rw [remove_add h hnew] at hback
    exact .inl hback.symm

/-! ## The node set does not decide -/

theorem virtualNodes_after (hashToUint32 : JsString → Hash) (n : ℕ) (ops : List RingOp) :
    (HashRing.after hashToUint32 n ops).virtualNodes = n := by
  induction ops using List.reverseRecOn with
  | nil => rfl
  | append_singleton ops op ih =>
    unfold HashRing.after at ih ⊢
    rw [List.foldl_append, List.foldl_cons, List.foldl_nil]
    cases op with
    | add d =>
      simp only [RingOp.apply, HashRing.add]
      split_ifs <;> exact ih
    | remove d =>
      simp only [RingOp.apply, HashRing.remove]
      split_ifs <;> exact ih

theorem nodeSet_after_adds (hashToUint32 : JsString → Hash) (n : ℕ) (l : List JsString)
    (hl : l.Nodup) :
    (HashRing.after hashToUint32 n (l.map .add)).nodeSet = l := by
  induction l using List.reverseRecOn with
  | nil => rfl
  | append_singleton l d ih =>
    obtain ⟨hnodup, -, hnew⟩ := List.nodup_append.1 hl
    have hset := ih hnodup
    unfold HashRing.after at hset ⊢
    rw [List.map_append, List.foldl_append, List.map_singleton, List.foldl_cons, List.foldl_nil]
    simp only [RingOp.apply, HashRing.add, hset]
    rw [if_neg fun hd => hnew d hd d (List.mem_singleton_self d) rfl]

namespace Placed

variable {x : Hash}

theorem hashes (h : Placed hashToUint32 r) : {y | ∃ p ∈ r.ring, p.hash = y} =
    {y | ∃ n ∈ r.nodeSet.toFinset, PointAt hashToUint32 r.virtualNodes n y} := by
  ext y
  simp only [Set.mem_ofPred_eq, List.mem_toFinset, PointAt]
  constructor
  · rintro ⟨p, hp, rfl⟩
    obtain ⟨hn, hv⟩ := h.mem_ring.1 hp
    exact ⟨p.node, hn, p, hv, rfl⟩
  · rintro ⟨n, hn, p, hp, rfl⟩
    have hnode := (mem_virtualPoints.1 hp).1
    exact ⟨p, h.mem_ring.2 ⟨hnode ▸ hn, hnode ▸ hp⟩, rfl⟩

/-- The owner of a key has a point where the key lands, and no node before it has one. -/
theorem getNode_eq_some (h : Placed hashToUint32 r) {n : JsString}
    (hn : r.getNode hashToUint32 key = some n) :
    ∃ x, LandsOn {y | ∃ n ∈ r.nodeSet.toFinset, PointAt hashToUint32 r.virtualNodes n y}
        (hashToUint32 key) x ∧ n ∈ r.nodeSet ∧ PointAt hashToUint32 r.virtualNodes n x ∧
      ((r.nodeSet.flatMap (virtualPoints hashToUint32 r.virtualNodes)).filter
        fun p => p.hash = x).head?.map RingPoint.node = some n := by
  rw [getNode_eq h.sorted, Option.map_eq_some_iff] at hn
  obtain ⟨p, hp, rfl⟩ := hn
  obtain ⟨hland, hhead⟩ := firstFrom_landsOn h.sorted hp
  have hmem : p ∈ r.ring := List.mem_of_mem_filter (List.mem_of_mem_head? hhead)
  obtain ⟨hnode, hpoint⟩ := h.mem_ring.1 hmem
  refine ⟨p.hash, h.hashes ▸ hland, hnode, ⟨p, hpoint, rfl⟩, ?_⟩
  rw [← filter_stableSort, ← h.ring, hhead, Option.map_some]

theorem getNode_eq_none (h : Placed hashToUint32 r) :
    r.getNode hashToUint32 key = none ↔
      ∀ n ∈ r.nodeSet.toFinset, ∀ y, ¬ PointAt hashToUint32 r.virtualNodes n y := by
  rw [getNode_eq h.sorted, Option.map_eq_none_iff, firstFrom_eq_none]
  constructor
  · intro hnil n hn y hy
    have hmem : y ∈ {y | ∃ p ∈ r.ring, p.hash = y} := h.hashes ▸ ⟨n, hn, hy⟩
    simp [hnil] at hmem
  · intro hno
    refine List.eq_nil_iff_forall_not_mem.2 fun p hp => ?_
    obtain ⟨hnode, hpoint⟩ := h.mem_ring.1 hp
    exact hno p.node (List.mem_toFinset.2 hnode) p.hash ⟨p, hpoint, rfl⟩

/-- Of the nodes with a point where a key lands, the first one owns it. -/
theorem getNode_of_first (h : Placed hashToUint32 r) {n : JsString} {l : List JsString}
    (hset : r.nodeSet = n :: l) {nodes : Finset JsString} (hnodes : r.nodeSet.toFinset = nodes)
    {v : ℕ} (hv : r.virtualNodes = v)
    (hland : LandsOn {y | ∃ n ∈ nodes, PointAt hashToUint32 v n y} (hashToUint32 key) x)
    (hpoint : PointAt hashToUint32 v n x) : r.getNode hashToUint32 key = some n := by
  subst hnodes hv
  rcases hg : r.getNode hashToUint32 key with _ | m
  · exact absurd hpoint (h.getNode_eq_none.1 hg n (by simp [hset]) x)
  · obtain ⟨x', hland', -, -, hhead⟩ := h.getNode_eq_some hg
    obtain rfl := hland'.unique hland
    rw [hset, List.flatMap_cons, List.filter_append, List.head?_append] at hhead
    obtain ⟨p, hp, hx⟩ := hpoint
    rcases hf : (virtualPoints hashToUint32 r.virtualNodes n).filter (fun p => p.hash = x')
      with _ | ⟨q, t⟩
    · have hq : p ∈ (virtualPoints hashToUint32 r.virtualNodes n).filter fun p => p.hash = x' :=
        List.mem_filter.2 ⟨hp, by simpa using hx⟩
      rw [hf] at hq
      simp at hq
    · rw [hf, List.head?_cons, Option.some_or, Option.map_some] at hhead
      have hq : q ∈ virtualPoints hashToUint32 r.virtualNodes n :=
        List.mem_of_mem_filter (hf ▸ List.mem_cons_self)
      rw [← hhead, (mem_virtualPoints.1 hq).1]

end Placed

theorem nodes_of_toFinset {nodes : Finset JsString} {n : JsString} (hn : n ∈ nodes) :
    ∃ l : List JsString, (n :: l).Nodup ∧ (n :: l).toFinset = nodes := by
  refine ⟨(nodes.erase n).toList, List.nodup_cons.2 ⟨by simp, Finset.nodup_toList _⟩, ?_⟩
  rw [List.toFinset_cons, Finset.toList_toFinset, Finset.insert_erase hn]

/-- Where a key lands, every node that has a point there owns the key after some history: one in
which it is added first. -/
theorem exists_owned {virtualNodes : ℕ} {nodes : Finset JsString} {n : JsString}
    (hland : LandsOn {y | ∃ n ∈ nodes, PointAt hashToUint32 virtualNodes n y}
      (hashToUint32 key) x) (hn : n ∈ nodes) (hpoint : PointAt hashToUint32 virtualNodes n x) :
    ∃ ops, (HashRing.after hashToUint32 virtualNodes ops).nodeSet.toFinset = nodes ∧
      (HashRing.after hashToUint32 virtualNodes ops).getNode hashToUint32 key = some n := by
  obtain ⟨l, hnodup, hl⟩ := nodes_of_toFinset hn
  have hset := nodeSet_after_adds hashToUint32 virtualNodes (n :: l) hnodup
  have hfin : (HashRing.after hashToUint32 virtualNodes ((n :: l).map .add)).nodeSet.toFinset =
      nodes := by rw [hset, hl]
  exact ⟨(n :: l).map .add, hfin, (placed_after hashToUint32 virtualNodes _).getNode_of_first
    hset hfin (virtualNodes_after _ _ _) hland hpoint⟩

/-- The histories that end in the same nodes route every key alike exactly if no key lands where
two of the nodes have a point. -/
theorem routing_iff (hashToUint32 : JsString → Hash) (virtualNodes : ℕ)
    (nodes : Finset JsString) :
    (∀ ops₁ ops₂ : List RingOp,
      (HashRing.after hashToUint32 virtualNodes ops₁).nodeSet.toFinset = nodes →
      (HashRing.after hashToUint32 virtualNodes ops₂).nodeSet.toFinset = nodes →
      ∀ key, (HashRing.after hashToUint32 virtualNodes ops₁).getNode hashToUint32 key =
        (HashRing.after hashToUint32 virtualNodes ops₂).getNode hashToUint32 key) ↔
    NoSharedLanding hashToUint32 virtualNodes nodes := by
  constructor
  · intro hsame key x hland n hn m hm hpn hpm
    obtain ⟨ops₁, hs₁, hg₁⟩ := exists_owned hland hn hpn
    obtain ⟨ops₂, hs₂, hg₂⟩ := exists_owned hland hm hpm
    have heq := hsame ops₁ ops₂ hs₁ hs₂ key
    rw [hg₁, hg₂] at heq
    exact Option.some.inj heq
  · intro hno ops₁ ops₂ hs₁ hs₂ key
    have h₁ := placed_after hashToUint32 virtualNodes ops₁
    have h₂ := placed_after hashToUint32 virtualNodes ops₂
    have hnone : (HashRing.after hashToUint32 virtualNodes ops₁).getNode hashToUint32 key = none ↔
        (HashRing.after hashToUint32 virtualNodes ops₂).getNode hashToUint32 key = none := by
      rw [h₁.getNode_eq_none, h₂.getNode_eq_none, hs₁, hs₂, virtualNodes_after, virtualNodes_after]
    rcases hg₁ : (HashRing.after hashToUint32 virtualNodes ops₁).getNode hashToUint32 key with _ | n
    · exact (hnone.1 hg₁).symm
    rcases hg₂ : (HashRing.after hashToUint32 virtualNodes ops₂).getNode hashToUint32 key with _ | m
    · rw [hnone.2 hg₂] at hg₁
      simp at hg₁
    obtain ⟨x, hx, hn, hpn, -⟩ := h₁.getNode_eq_some hg₁
    obtain ⟨y, hy, hm, hpm, -⟩ := h₂.getNode_eq_some hg₂
    rw [← List.mem_toFinset, hs₁] at hn
    rw [← List.mem_toFinset, hs₂] at hm
    rw [hs₁, virtualNodes_after] at hx
    rw [hs₂, virtualNodes_after] at hy
    rw [virtualNodes_after] at hpn hpm
    obtain rfl := hx.unique hy
    rw [hno key x hx n hn m hm hpn hpm]

/-- The first 32 bits of the MD5 of three texts, two of which agree. -/
def md5Sample (s : JsString) : Hash :=
  if s = js "http://node-40427:3000#0" then 163884134
  else if s = js "http://node-59050:3000#0" then 163884134
  else if s = js "user:1" then 3182550288
  else 0

/-- Two orders of adding the same two nodes, and a node that flaps, route one key differently. -/
theorem routing_differs :
    (HashRing.after md5Sample 1 [.add (js "http://node-40427:3000"),
      .add (js "http://node-59050:3000")]).getNode md5Sample (js "user:1") =
        some (js "http://node-40427:3000") ∧
    (HashRing.after md5Sample 1 [.add (js "http://node-59050:3000"),
      .add (js "http://node-40427:3000")]).getNode md5Sample (js "user:1") =
        some (js "http://node-59050:3000") ∧
    (HashRing.after md5Sample 1 [.add (js "http://node-40427:3000"),
      .add (js "http://node-59050:3000"), .remove (js "http://node-40427:3000"),
      .add (js "http://node-40427:3000")]).getNode md5Sample (js "user:1") =
        some (js "http://node-59050:3000") ∧
    (HashRing.after md5Sample 1 [.add (js "http://node-40427:3000"),
      .add (js "http://node-59050:3000")]).nodeSet.toFinset =
        (HashRing.after md5Sample 1 [.add (js "http://node-59050:3000"),
          .add (js "http://node-40427:3000")]).nodeSet.toFinset := by
  refine ⟨?_, ?_, ?_, by decide +kernel⟩ <;>
    rw [getNode_eq (placed_after md5Sample 1 _).sorted] <;>
    decide +kernel

end InkCache
