import InkCache.App
import InkCache.HashRing
import InkCache.Lib.OrderedMap
import InkCache.Lib.Run

/-!
# The cluster gateway (`src/network/gateway.ts`)

A gateway keeps a router and, in `startHealthChecks` of `src/network/health-check.ts`, a `Map` of
the nodes it knows to whether they were healthy at the last check. `checks` are the pings in flight,
each with the url it was started for. A handler runs in one piece; between them pings are answered
in any order. What a peer gateway answers to a sync arrives at `onReceiveNodes`.
-/

namespace InkCache

open Lib

/-! ## URLs -/

/-- `replace(/\/$/, "")`: one slash at the end is dropped. -/
def dropSlash (s : JsString) : JsString := if s.getLast? = some 47 then s.dropLast else s

/-- `trim().replace(/\/$/, "")` -/
def normalized (url : JsString) : JsString := dropSlash url.trim

/-- The nodes listed in `INKCACHE_CLUSTER_NODES`. -/
def resolveClusterNodes (envValue : Option JsString) : List JsString :=
  match envValue with
  | none | some [] => []
  | some s => ((s.splitOn 44).map normalized).filter fun url => 0 < url.length

structure NodeHealth where
  url : JsString
  healthy : Bool
  deriving DecidableEq

structure Gateway where
  router : HashRing
  health : OrderedMap JsString Bool
  checks : List JsString

inductive GatewayResponse where
  | error (status : ℕ) (message : JsString)
  /-- Of `POST` and `DELETE /cluster/nodes`. -/
  | node (url : JsString) (count : ℕ)
  | synced (nodes : List JsString)
  deriving DecidableEq

variable (hashToUint32 : JsString → Hash)

namespace Gateway

/-! ## The health checks -/

/-- The router and the `Map` of `startHealthChecks` have the same initial nodes. -/
def start (virtualNodes : ℕ) (nodes : List JsString) : Gateway where
  router := .new hashToUint32 nodes virtualNodes
  health := nodes.foldl (fun health url => health.set url true) .empty
  checks := []

def status (g : Gateway) : List NodeHealth :=
  g.health.entries.map fun e => { url := e.1, healthy := e.2 }

/-- `status().map((n) => n.url)` -/
def known (g : Gateway) : List JsString := g.status.map NodeHealth.url

def addNode (url : JsString) (g : Gateway) : Gateway :=
  if (g.health.get? url).isSome then g
  else
    { g with
      health := g.health.set url true
      router := g.router.add hashToUint32 url }

def removeNode (url : JsString) (g : Gateway) : Gateway :=
  if (g.health.get? url).isNone then g
  else
    { g with
      health := g.health.delete url
      router := g.router.remove url }

/-- `checkAll` up to its `await`s: a ping for every node known now. -/
def checkAll (g : Gateway) : Gateway := { g with checks := g.checks ++ g.health.keys }

/-- The rest of a check once its ping has been answered. -/
def checked (url : JsString) (healthy : Bool) (g : Gateway) : Gateway :=
  match g.health.get? url with
  | none => g
  | some wasHealthy =>
    if healthy = wasHealthy then g
    else
      { g with
        health := g.health.set url healthy
        router := if healthy then g.router.add hashToUint32 url else g.router.remove url }

/-! ## The routes -/

def nodeFor (key : JsString) (g : Gateway) : Option JsString := g.router.getNode hashToUint32 key

/-- `healthyCount` of `GET /cluster/nodes`. -/
def healthyCount (g : Gateway) : ℕ := g.router.nodeSet.length

variable {ν : Type}

/-- The `url` of a body that has one. -/
def bodyUrl (body : Option (Json ν)) : Option JsString :=
  match readField (orEmpty body) (js "url") with
  | .value (.str url) => if url.length = 0 then none else some url
  | _ => none

def noUrl : GatewayResponse := .error 400 (js "url must be a non-empty string")

def postNodes (body : Option (Json ν)) (g : Gateway) : Gateway × GatewayResponse :=
  match bodyUrl body with
  | none => (g, noUrl)
  | some url =>
    if normalized url ∈ g.known then
      (g, .error 409 (js "node " ++ normalized url ++ js " is already registered"))
    else
      let g := g.addNode hashToUint32 (normalized url)
      (g, .node (normalized url) g.router.nodeSet.length)

def deleteNodes (body : Option (Json ν)) (g : Gateway) : Gateway × GatewayResponse :=
  match bodyUrl body with
  | none => (g, noUrl)
  | some url =>
    let g := g.removeNode (normalized url)
    (g, .node (normalized url) g.router.nodeSet.length)

/-- The loop of `POST /cluster/sync`, with the set of the urls that are known. -/
def mergeNodes : List JsString → List JsString → Gateway → Gateway × List JsString
  | [], known, g => (g, known)
  | url :: nodes, known, g =>
    if normalized url ∈ known then mergeNodes nodes known g
    else mergeNodes nodes (known ++ [normalized url]) (g.addNode hashToUint32 (normalized url))

/-- The strings of an array that holds nothing else. -/
def strings : List (Json ν) → Option (List JsString)
  | [] => some []
  | .str s :: rest => (strings rest).map (s :: ·)
  | _ :: _ => none

/-- The `nodes` of a body that has an array of strings there. -/
def bodyNodes (body : Json ν) : Option (List JsString) :=
  match readField body (js "nodes") with
  | .value (.arr nodes) => strings nodes
  | _ => none

def postSync (body : Option (Json ν)) (g : Gateway) : Gateway × GatewayResponse :=
  match bodyNodes (orEmpty body) with
  | none => (g, .error 400 (js "nodes must be an array of strings"))
  | some nodes =>
    let r := g.mergeNodes hashToUint32 nodes g.known
    (r.1, .synced r.2)

/-! ## Gossip (`src/network/gateway-sync.ts`) -/

/-- `onReceiveNodes`, which adds each url as it is. -/
def onReceiveNodes (nodes : List JsString) (g : Gateway) : Gateway :=
  nodes.foldl (fun g url => g.addNode hashToUint32 url) g

/-- The body `{ nodes }` of a request and of an answer. -/
def syncBody (nodes : List JsString) : Json ν :=
  .obj [(js "nodes", .arr (nodes.map .str))]

/-- What `syncWithPeer` makes of the body it is answered. -/
def receiveSync (body : Json ν) (g : Gateway) : Gateway :=
  match bodyNodes body with
  | none => g
  | some nodes => g.onReceiveNodes hashToUint32 nodes

end Gateway

/-! ## Runs of one gateway -/

inductive GatewayAction (ν : Type) where
  /-- The timer of the health checks fires, whether or not its last checks are over. -/
  | checkAll
  /-- The ping at a place of `checks` is answered. -/
  | checked (i : ℕ) (healthy : Bool)
  | postNodes (body : Option (Json ν))
  | deleteNodes (body : Option (Json ν))
  | postSync (body : Option (Json ν))
  | receiveSync (body : Json ν)

variable {ν : Type}

def gatewayStep (g : Gateway) : GatewayAction ν → Option (Gateway × List GatewayResponse)
  | .checkAll => some (g.checkAll, [])
  | .checked i healthy =>
    match g.checks[i]? with
    | none => none
    | some url =>
      some (({ g with checks := g.checks.eraseIdx i }).checked hashToUint32 url healthy, [])
  | .postNodes body =>
    let r := g.postNodes hashToUint32 body
    some (r.1, [r.2])
  | .deleteNodes body =>
    let r := g.deleteNodes body
    some (r.1, [r.2])
  | .postSync body =>
    let r := g.postSync hashToUint32 body
    some (r.1, [r.2])
  | .receiveSync body => some (g.receiveSync hashToUint32 body, [])

end InkCache
