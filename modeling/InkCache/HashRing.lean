import InkCache.Js
import InkCache.Lib.StableSort

/-!
# The hash ring (`src/core/hashring.ts`)

`hashToUint32` is a parameter: a function of the text into the integers of 32 bits. `Array.sort`
with the comparator of `add` is a stable sort by hash.
-/

namespace InkCache

open Lib

abbrev Hash := Fin (2 ^ 32)

instance neZero_hash : NeZero (2 ^ 32) := inferInstance

structure RingPoint where
  hash : Hash
  node : JsString
  deriving DecidableEq

/-- `nodeSet` is a `Set`, in insertion order. -/
structure HashRing where
  ring : List RingPoint
  nodeSet : List JsString
  virtualNodes : ℕ
  deriving DecidableEq

variable (hashToUint32 : JsString → Hash)

/-- The points `add` pushes for a node. -/
def virtualPoints (virtualNodes : ℕ) (node : JsString) : List RingPoint :=
  (List.range virtualNodes).map fun i =>
    { hash := hashToUint32 (node ++ js "#" ++ JsString.ofNat i), node }

namespace HashRing

def add (node : JsString) (r : HashRing) : HashRing :=
  if node ∈ r.nodeSet then r
  else
    { r with
      nodeSet := r.nodeSet ++ [node]
      ring := stableSort RingPoint.hash
        (r.ring ++ virtualPoints hashToUint32 r.virtualNodes node) }

def remove (node : JsString) (r : HashRing) : HashRing :=
  if node ∈ r.nodeSet then
    { r with
      nodeSet := r.nodeSet.filter fun n => n ≠ node
      ring := r.ring.filter fun point => point.node ≠ node }
  else r

def empty (virtualNodes : ℕ) : HashRing := { ring := [], nodeSet := [], virtualNodes }

/-- The constructor, which adds the nodes one by one. -/
def new (nodes : List JsString) (virtualNodes : ℕ := 150) : HashRing :=
  nodes.foldl (fun r node => r.add hashToUint32 node) (empty virtualNodes)

/-- The loop of `getNode`: halves `lo ≤ i < hi`. -/
def search (ring : List RingPoint) (h : Hash) (lo hi : ℕ) : ℕ :=
  if lo < hi then
    let mid := (lo + hi) / 2
    match ring[mid]? with
    | none => lo -- not reached: `mid` is an index
    | some point => if point.hash < h then search ring h (mid + 1) hi else search ring h lo mid
  else lo
termination_by hi - lo

def getNode (key : JsString) (r : HashRing) : Option JsString :=
  if r.ring.length = 0 then none
  else
    let lo := search r.ring (hashToUint32 key) 0 r.ring.length
    (r.ring[if lo = r.ring.length then 0 else lo]?).map RingPoint.node

end HashRing

/-- The two ways a ring changes. -/
inductive RingOp where
  | add (node : JsString)
  | remove (node : JsString)

def RingOp.apply (r : HashRing) : RingOp → HashRing
  | add node => r.add hashToUint32 node
  | remove node => r.remove node

/-- The ring a sequence of changes leads to. -/
def HashRing.after (virtualNodes : ℕ) (ops : List RingOp) : HashRing :=
  ops.foldl (RingOp.apply hashToUint32) (.empty virtualNodes)

/-! ## Where keys land -/

/-- A point of the node has the hash. -/
def PointAt (virtualNodes : ℕ) (node : JsString) (x : Hash) : Prop :=
  ∃ p ∈ virtualPoints hashToUint32 virtualNodes node, p.hash = x

/-- No key lands on a hash that two of the nodes have a point at. -/
def NoSharedLanding (virtualNodes : ℕ) (nodes : Finset JsString) : Prop :=
  ∀ key x, LandsOn {y | ∃ n ∈ nodes, PointAt hashToUint32 virtualNodes n y} (hashToUint32 key) x →
    ∀ n ∈ nodes, ∀ m ∈ nodes, PointAt hashToUint32 virtualNodes n x →
      PointAt hashToUint32 virtualNodes m x → n = m

end InkCache
