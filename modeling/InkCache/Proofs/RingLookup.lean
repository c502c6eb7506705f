import InkCache.Proofs.HashRing

/-!
# The ring is read clockwise

The nodes of a ring are those that its history added and has not removed since
(`mem_nodeSet_after`). Every one of them has all of its points in the array (`filter_ring`), and
what the binary search of `getNode` finds is what a scan of the array from its start finds
(`getNode_eq_scan`).
-/

namespace InkCache

open Lib

variable {hashToUint32 : JsString → Hash} {r : HashRing} {node : JsString} {ring : List RingPoint}
  {h : Hash}

/-- The last change that concerns the node adds it. -/
def Current (ops : List RingOp) (node : JsString) : Prop :=
  ∃ before since, ops = before ++ .add node :: since ∧ .remove node ∉ since

/-- The first point at or past `h`, looked for from the start; if there is none, the first point. -/
def HashRing.scan (h : Hash) (ring : List RingPoint) : Option RingPoint :=
  match ring.find? fun point => h ≤ point.hash with
  | some point => some point
  | none => ring.head?

/-! ## The nodes -/

theorem current_snoc {ops : List RingOp} {op : RingOp} : Current (ops ++ [op]) node ↔
    op = .add node ∨ op ≠ .remove node ∧ Current ops node := by
  constructor
  · rintro ⟨before, since, heq, hsince⟩
    rcases List.eq_nil_or_concat since with rfl | ⟨since, op', rfl⟩
    · exact .inl (List.append_inj' heq rfl |>.2 |> List.singleton_inj.1)
    · rw [List.concat_eq_append, ← List.cons_append, ← List.append_assoc] at heq
      obtain ⟨rfl, hop⟩ := List.append_inj' heq rfl
      obtain rfl := List.singleton_inj.1 hop
      rw [List.concat_eq_append, List.mem_append, not_or, List.mem_singleton] at hsince
      exact .inr ⟨fun he => hsince.2 he.symm, before, since, rfl, hsince.1⟩
  · rintro (rfl | ⟨hop, before, since, rfl, hsince⟩)
    · exact ⟨ops, [], rfl, List.not_mem_nil⟩
    · refine ⟨before, since ++ [op], by simp, ?_⟩
      rw [List.mem_append, not_or, List.mem_singleton]
      exact ⟨hsince, fun he => hop he.symm⟩

theorem mem_nodeSet_apply {op : RingOp} : node ∈ (op.apply hashToUint32 r).nodeSet ↔
    op = .add node ∨ op ≠ .remove node ∧ node ∈ r.nodeSet := by
  cases op with
  | add d =>
    simp only [RingOp.apply, HashRing.add, RingOp.add.injEq]
    split_ifs with hd
    · constructor
      · exact fun hn => .inr ⟨by simp, hn⟩
      · rintro (rfl | ⟨-, hn⟩)
        · exact hd
        · exact hn
    · simp only [List.mem_append, List.mem_singleton]
      constructor
      · rintro (hn | rfl)
        · exact .inr ⟨by simp, hn⟩
        · exact .inl rfl
      · rintro (rfl | ⟨-, hn⟩)
        · exact .inr rfl
        · exact .inl hn
  | remove d =>
    simp only [RingOp.apply, HashRing.remove, ne_eq, RingOp.remove.injEq, reduceCtorEq, false_or]
    split_ifs with hd
    · rw [List.mem_filter, decide_eq_true_eq]
      exact ⟨fun hn => ⟨fun he => hn.2 he.symm, hn.1⟩, fun hn => ⟨hn.2, fun he => hn.1 he.symm⟩⟩
    · exact ⟨fun hn => ⟨fun he => hd (he ▸ hn), hn⟩, fun hn => hn.2⟩

theorem mem_nodeSet_after {n : ℕ} (ops : List RingOp) :
    node ∈ (HashRing.after hashToUint32 n ops).nodeSet ↔ Current ops node := by
  induction ops using List.reverseRecOn with
  | nil =>
    constructor
    · exact fun hn => absurd hn List.not_mem_nil
    · rintro ⟨before, since, heq, -⟩
      simp at heq
  | append_singleton ops op ih =>
    have hlast : HashRing.after hashToUint32 n (ops ++ [op]) =
        op.apply hashToUint32 (.after hashToUint32 n ops) := by
      unfold HashRing.after
      rw [List.foldl_append, List.foldl_cons, List.foldl_nil]
    rw [hlast, mem_nodeSet_apply, current_snoc, ih]

/-! ## The points -/

theorem filter_points_self (n : ℕ) :
    (virtualPoints hashToUint32 n node).filter (fun p => p.node = node) =
      virtualPoints hashToUint32 n node := by
  rw [List.filter_eq_self]
  intro p hp
  simpa using (mem_virtualPoints.1 hp).1

theorem filter_points_flatMap {n : ℕ} : ∀ {l : List JsString}, l.Nodup → node ∈ l →
    (l.flatMap (virtualPoints hashToUint32 n)).filter (fun p => p.node = node) =
      virtualPoints hashToUint32 n node
  | [], _, hn => absurd hn List.not_mem_nil
  | m :: l, hl, hn => by
    obtain ⟨hm, hl⟩ := List.nodup_cons.1 hl
    have hothers : node ∉ l →
        (l.flatMap (virtualPoints hashToUint32 n)).filter (fun p => p.node = node) = [] := by
      intro hnot
      rw [List.filter_eq_nil_iff]
      intro p hp
      obtain ⟨m', hm', hp⟩ := List.mem_flatMap.1 hp
      rw [(mem_virtualPoints.1 hp).1, decide_eq_true_eq]
      exact fun he => hnot (he ▸ hm')
    rw [List.flatMap_cons, List.filter_append]
    rcases List.mem_cons.1 hn with rfl | hn
    · rw [filter_points_self, hothers hm, List.append_nil]
    · have hne : m ≠ node := fun he => hm (he ▸ hn)
      have hnone : (virtualPoints hashToUint32 n m).filter (fun p => p.node = node) = [] := by
        rw [List.filter_eq_nil_iff]
        intro p hp
        simpa [(mem_virtualPoints.1 hp).1] using hne
      rw [hnone, List.nil_append, filter_points_flatMap hl hn]

/-- The points of a node in the array are the ones `add` pushed, in some order. -/
theorem Placed.filter_ring (hr : Placed hashToUint32 r) (hn : node ∈ r.nodeSet) :
    (r.ring.filter fun p => p.node = node).Perm
      (virtualPoints hashToUint32 r.virtualNodes node) := by
  rw [hr.ring, ← filter_points_flatMap hr.nodup hn]
  exact (stableSort_perm _).filter _

theorem Placed.filter_ring_absent (hr : Placed hashToUint32 r) (hn : node ∉ r.nodeSet) :
    (r.ring.filter fun p => p.node = node) = [] := by
  rw [List.filter_eq_nil_iff]
  intro p hp
  rw [decide_eq_true_eq]
  exact fun he => hn (he ▸ (hr.mem_ring.1 hp).1)

/-! ## The lookup -/

theorem scan_eq_firstFrom : HashRing.scan h ring = firstFrom RingPoint.hash h ring := by
  unfold HashRing.scan firstFrom
  cases ring.find? fun point => h ≤ point.hash <;> simp

theorem scan_of_first {i : ℕ} {p : RingPoint} (hi : ring[i]? = some p) (hp : h ≤ p.hash)
    (hbefore : ∀ q ∈ ring.take i, q.hash < h) : HashRing.scan h ring = some p := by
  have hfind : ring.find? (fun point => h ≤ point.hash) = some p := by
    refine List.find?_eq_some_iff_append.2
      ⟨by simpa using hp, ring.take i, ring.drop (i + 1), ?_, ?_⟩
    · rw [← (take_drop_of_getElem? hi).2, List.take_append_drop]
    · intro q hq
      simpa using hbefore q hq
  unfold HashRing.scan
  rw [hfind]

theorem scan_of_past (hpast : ∀ q ∈ ring, q.hash < h) : HashRing.scan h ring = ring.head? := by
  have hfind : ring.find? (fun point => h ≤ point.hash) = none := by
    rw [List.find?_eq_none]
    intro q hq
    simpa using hpast q hq
  unfold HashRing.scan
  rw [hfind]

theorem Placed.getNode_eq_scan (hr : Placed hashToUint32 r) (key : JsString) :
    r.getNode hashToUint32 key =
      (HashRing.scan (hashToUint32 key) r.ring).map RingPoint.node := by
  rw [getNode_eq hr.sorted, scan_eq_firstFrom]

theorem Placed.getNode_isNone (hr : Placed hashToUint32 r) (hv : 1 ≤ r.virtualNodes)
    (key : JsString) : r.getNode hashToUint32 key = none ↔ r.nodeSet = [] := by
  rw [hr.getNode_eq_none]
  constructor
  · intro hno
    refine List.eq_nil_iff_forall_not_mem.2 fun n hn => ?_
    refine hno n (List.mem_toFinset.2 hn) (hashToUint32 (n ++ js "#" ++ JsString.ofNat 0)) ?_
    exact ⟨⟨_, n⟩, mem_virtualPoints.2 ⟨rfl, 0, hv, rfl⟩, rfl⟩
  · intro hnil n hn
    simp [hnil] at hn

/-- After any changes, the array is sorted and holds all the points of the current nodes and no
others, and a key belongs to the first point at or past its hash, or else to the first of all. -/
theorem ring_lookup (hashToUint32 : JsString → Hash) (virtualNodes : ℕ) (hv : 1 ≤ virtualNodes)
    (ops : List RingOp) :
    let r := HashRing.after hashToUint32 virtualNodes ops
    r.ring.Pairwise (fun p q => p.hash ≤ q.hash) ∧
    (∀ node, node ∈ r.nodeSet ↔ Current ops node) ∧
    (∀ node, Current ops node →
      (r.ring.filter fun p => p.node = node).length = virtualNodes ∧
      (r.ring.filter fun p => p.node = node).Perm
        (virtualPoints hashToUint32 virtualNodes node)) ∧
    (∀ node, ¬ Current ops node → (r.ring.filter fun p => p.node = node) = []) ∧
    ∀ key,
      (r.getNode hashToUint32 key = none ↔ ∀ node, ¬ Current ops node) ∧
      (∀ i p, r.ring[i]? = some p → hashToUint32 key ≤ p.hash →
        (∀ q ∈ r.ring.take i, q.hash < hashToUint32 key) →
          r.getNode hashToUint32 key = some p.node) ∧
      ((∀ q ∈ r.ring, q.hash < hashToUint32 key) →
        r.getNode hashToUint32 key = r.ring.head?.map RingPoint.node) ∧
      r.getNode hashToUint32 key =
        (HashRing.scan (hashToUint32 key) r.ring).map RingPoint.node := by
  intro r
  have hr : Placed hashToUint32 r := placed_after hashToUint32 virtualNodes ops
  have hcount : r.virtualNodes = virtualNodes := virtualNodes_after hashToUint32 virtualNodes ops
  have hmem : ∀ node, node ∈ r.nodeSet ↔ Current ops node := fun _ => mem_nodeSet_after ops
  refine ⟨hr.sorted, hmem, fun node hn => ?_, fun node hn => ?_, fun key => ⟨?_, ?_, ?_, ?_⟩⟩
  · have hperm := hr.filter_ring ((hmem node).2 hn)
    rw [hcount] at hperm
    exact ⟨by simp [hperm.length_eq, virtualPoints], hperm⟩
  · exact hr.filter_ring_absent fun hn' => hn ((hmem node).1 hn')
  · rw [hr.getNode_isNone (hcount ▸ hv), List.eq_nil_iff_forall_not_mem]
    exact forall_congr' fun node => not_congr (hmem node)
  · intro i p hi hp hbefore
    rw [hr.getNode_eq_scan, scan_of_first hi hp hbefore, Option.map_some]
  · intro hpast
    rw [hr.getNode_eq_scan, scan_of_past hpast]
  · exact hr.getNode_eq_scan key

/-- Two nodes of two points each, one of which flaps, and a key that hashes past all of them. -/
theorem ring_lookup_flap :
    1 ≤ 2 ∧
      (HashRing.after md5Sample 2 [.add (js "a"), .add (js "b"), .remove (js "a"),
        .add (js "a")]).getNode md5Sample (js "user:1") =
        (HashRing.after md5Sample 2 [.add (js "a"), .add (js "b"), .remove (js "a"),
          .add (js "a")]).ring.head?.map RingPoint.node := by
  refine ⟨by decide, ?_⟩
  refine ((ring_lookup md5Sample 2 (by decide) [.add (js "a"), .add (js "b"), .remove (js "a"),
    .add (js "a")]).2.2.2.2 (js "user:1")).2.2.1 ?_
  decide +kernel

end InkCache
