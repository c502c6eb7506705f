import InkCache.GatewayRoutes
import InkCache.Lib.Run
import InkCache.NodeUrl

/-!
# A gateway in front of its nodes

What a node makes of the requests that are proxied to it. A request is routed, handled and relayed
in one piece; between requests the gateway learns of nodes, checks them, and takes them out of the
ring and back. A node that fails its checks keeps its store, and no node has another's.
-/

namespace InkCache

open Lib

variable {ν : Type}

/-- A request as it reaches a node. -/
inductive NodeRequest (ν : Type) where
  | set (body : Json ν)
  | get (key : JsString)
  | delete (key : JsString)

inductive NodeAnswer (ν : Type) where
  | write (r : AppResponse ν)
  | hit (r : ValueWithTtl ν)
  | miss

/-- What the routes of a node make of a request that the gateway sends. -/
def ProxyRequest.toNode (isAuthority : JsString → Bool) (sent : ProxyRequest ν) :
    Option (NodeRequest ν) :=
  match JsString.fetchPath isAuthority sent.url, sent.method with
  | none, _ => none
  | some path, .post => if JsString.matchesRoute (js "set") path then sent.body.map .set else none
  | some path, .get => (JsString.routeKey (js "get") path).map .get
  | some path, .delete => (JsString.routeKey (js "delete") path).map .delete

/-- What is proxied, as the routes of the node have it: nothing for a body that cannot be
stringified, nor for a key that has no place in a path. -/
def RoutedRequest.proxied (stringifies : Json ν → Bool) :
    RoutedRequest ν → Option (NodeRequest ν)
  | .set body => if stringifies (orEmpty body) then some (.set (orEmpty body)) else none
  | .get key => (JsString.keyAtNode (js "get") key).map .get
  | .delete key => (JsString.keyAtNode (js "delete") key).map .delete
  | .route _ => none

/-- The node a request goes to and what it is sent, if it is sent anywhere. -/
def Gateway.proxied (hashToUint32 : JsString → Hash) (stringifies : Json ν → Bool)
    (req : RoutedRequest ν) (g : Gateway) : Option (JsString × NodeRequest ν) :=
  match req.key?, req.proxied stringifies with
  | some key, some r =>
    match (g.requireNode (ν := ν) hashToUint32 key).2 with
    | none | some [] => none
    | some nodeUrl => some (nodeUrl, r)
  | _, _ => none

/-! ## The nodes -/

variable [JsNumber ν]

namespace App

/-- `GET /get/:key` -/
def getKey (now : ν) (key : JsString) (app : App ν) : App ν × NodeAnswer ν :=
  let r := app.store.getWithTtl now key
  ({ app with store := r.1 }, match r.2 with | none => .miss | some result => .hit result)

def handle (now : ν) (app : App ν) : NodeRequest ν → App ν × NodeAnswer ν
  | .set body =>
    let r := app.postSet now (some body)
    (r.1, .write r.2.1)
  | .get key => app.getKey now key
  | .delete key =>
    let r := app.deleteKey key
    (r.1, .write r.2.1)

end App

structure ShardedStore (ν : Type) where
  gateway : Gateway
  nodes : JsString → App ν

/-- A request that was proxied, the node it went to, and the answer. -/
structure Exchange (ν : Type) where
  node : JsString
  request : NodeRequest ν
  answer : NodeAnswer ν

inductive ShardedAction (ν : Type) where
  | request (now : ν) (req : RoutedRequest ν)
  | gateway (a : GatewayAction ν)
  /-- The timer of a node's store fires. -/
  | sweep (now : ν) (node : JsString)

variable (hashToUint32 : JsString → Hash)

/-- The nodes run with any options and any roles, and hold nothing. -/
def ShardedStore.start (virtualNodes : ℕ) (urls : List JsString) (nodes : JsString → App ν) :
    ShardedStore ν where
  gateway := .start hashToUint32 virtualNodes urls
  nodes url := { nodes url with store := (nodes url).store.clear }

def shardedStep (stringifies : Json ν → Bool) (s : ShardedStore ν) :
    ShardedAction ν → Option (ShardedStore ν × List (Exchange ν))
  | .request now req =>
    match s.gateway.proxied hashToUint32 stringifies req with
    | none => some (s, [])
    | some (node, request) =>
      let r := (s.nodes node).handle now request
      some ({ s with nodes := Function.update s.nodes node r.1 },
        [{ node, request, answer := r.2 }])
  | .gateway a =>
    (gatewayStep hashToUint32 s.gateway a).map fun r => ({ s with gateway := r.1 }, [])
  | .sweep now node =>
    let app := s.nodes node
    some ({ s with
      nodes := Function.update s.nodes node { app with store := (app.store.sweep now).1 } }, [])

/-! ## What the acknowledged writes make of a key -/

namespace Exchange

/-- What an acknowledged write makes of a key: `none` if it is no such write of the key. -/
def writes (k : JsString) (x : Exchange ν) : Option (Option JsString) :=
  match x.request, x.answer with
  | .set body, .write r =>
    if r.isOk ∧ stringField body (js "key") = some k
    then some (stringField body (js "value")) else none
  | .delete key, .write r => if r.isOk ∧ key = k then some none else none
  | _, _ => none

/-- The key and the value of a `GET` that is answered one. -/
def hit? (x : Exchange ν) : Option (JsString × JsString) :=
  match x.request, x.answer with
  | .get key, .hit r => some (key, r.value)
  | _, _ => none

end Exchange

/-- The value of the latest acknowledged set of a key, unless it was deleted after it. -/
def latest (k : JsString) (log : List (Exchange ν)) : Option JsString :=
  log.foldl (fun v x => (x.writes k).getD v) none

/-- As `latest`, by what one node acknowledged. -/
def latestAt (node k : JsString) (log : List (Exchange ν)) : Option JsString :=
  latest k (log.filter fun x => x.node = node)

/-- The node that acknowledged the last set or delete of a key. -/
def lastWriter (k : JsString) (log : List (Exchange ν)) : Option JsString :=
  log.foldl (fun w x => if (x.writes k).isSome then some x.node else w) none

end InkCache
