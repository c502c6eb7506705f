import InkCache.Gateway
import InkCache.Text

/-!
# The routed requests of the gateway (`src/network/gateway.ts`)

A handler sends a list of responses: none where it returns without one. `fetch` answers a request to
a node with the status and the body, which is `none` if it is no JSON, or fails with a message.
`stringifies` says for which values `JSON.stringify` returns: it throws where a body is nested too
deep for the stack. What a handler throws ends in the last error handler of the app.
-/

namespace InkCache

variable {ν : Type}

inductive HttpMethod where
  | get
  | post
  | delete
  deriving DecidableEq

/-- A request that the gateway sends to a node; `body` is the value that is stringified. -/
structure ProxyRequest (ν : Type) where
  method : HttpMethod
  url : JsString
  headers : List (JsString × JsString)
  body : Option (Json ν)

abbrev Fetch (ν : Type) := ProxyRequest ν → Except JsString (ℕ × Option (Json ν))

inductive RoutedResponse (ν : Type) where
  | error (status : ℕ) (message : JsString)
  /-- The answer of a node, with its status. -/
  | relayed (status : ℕ) (body : Json ν)
  | route (key node : JsString)

inductive RoutedRequest (ν : Type) where
  | set (body : Option (Json ν))
  | get (key : JsString)
  | delete (key : JsString)
  | route (key : JsString)

def authHeader (apiKey : Option JsString) : List (JsString × JsString) :=
  match apiKey with
  | none | some [] => []
  | some apiKey => [(js "x-api-key", apiKey)]

variable (hashToUint32 : JsString → Hash) (fetch : Fetch ν) (apiKey : Option JsString)
  (stringifies : Json ν → Bool)

def unreachable (nodeUrl message : JsString) : RoutedResponse ν :=
  .error 502 (js "node " ++ nodeUrl ++ js " unreachable: " ++ message)

/-- The response that is made of what a node answers. -/
def relay (nodeUrl : JsString) : Except JsString (ℕ × Option (Json ν)) → RoutedResponse ν
  | .ok (status, answer) =>
    -- `res.json` stringifies inside the `try`.
    if stringifies (answer.getD (.obj [])) then .relayed status (answer.getD (.obj []))
    else unreachable nodeUrl (js "Maximum call stack size exceeded")
  | .error message => unreachable nodeUrl message

namespace Gateway

def proxy (nodeUrl path : JsString) (method : HttpMethod)
    (headers : List (JsString × JsString)) (body : Option (Json ν)) : RoutedResponse ν :=
  relay stringifies nodeUrl
    (fetch { method, url := nodeUrl ++ path, headers := headers ++ authHeader apiKey, body })

def noNodes : RoutedResponse ν := .error 503 (js "no cluster nodes configured")

/-- What it sends, and the node it returns. -/
def requireNode (key : JsString) (g : Gateway) : List (RoutedResponse ν) × Option JsString :=
  if g.router.nodeSet.length = 0 then ([noNodes], none) else ([], g.nodeFor hashToUint32 key)

/-- What the handlers have in common: `if (!nodeUrl) return`, and an answer otherwise. -/
def withNode (key : JsString) (answer : JsString → RoutedResponse ν) (g : Gateway) :
    List (RoutedResponse ν) :=
  let r := g.requireNode hashToUint32 key
  match r.2 with
  | none | some [] => r.1
  | some nodeUrl => r.1 ++ [answer nodeUrl]

def badKey : RoutedResponse ν := .error 400 (js "key must be a non-empty string")

/-- Where an error that a handler throws ends. -/
def unhandled : RoutedResponse ν := .error 500 (js "internal server error")

def postSet (body : Option (Json ν)) (g : Gateway) : List (RoutedResponse ν) :=
  match readField (orEmpty body) (js "key") with
  | .value (.str key) =>
    if key.length = 0 then [badKey]
    else
      g.withNode hashToUint32 key fun nodeUrl =>
        if stringifies (orEmpty body) then
          proxy fetch apiKey stringifies nodeUrl (js "/set") .post
            [(js "content-type", js "application/json")] (some (orEmpty body))
        else unhandled
  | _ => [badKey]

/-- The answer of `GET /get/:key` and `DELETE /delete/:key`, where the key is put into the path. -/
def proxyKey (path : JsString) (method : HttpMethod) (key nodeUrl : JsString) : RoutedResponse ν :=
  match key.encodeURIComponent with
  | none => unhandled
  | some encoded => proxy fetch apiKey stringifies nodeUrl (path ++ encoded) method [] none

def getKey (key : JsString) (g : Gateway) : List (RoutedResponse ν) :=
  g.withNode hashToUint32 key (proxyKey fetch apiKey stringifies (js "/get/") .get key)

def deleteKey (key : JsString) (g : Gateway) : List (RoutedResponse ν) :=
  g.withNode hashToUint32 key (proxyKey fetch apiKey stringifies (js "/delete/") .delete key)

def getRoute (key : JsString) (g : Gateway) : List (RoutedResponse ν) :=
  g.withNode hashToUint32 key fun nodeUrl => .route key nodeUrl

/-- The responses that the handler of a routed request sends. -/
def routed (g : Gateway) : RoutedRequest ν → List (RoutedResponse ν)
  | .set body => g.postSet hashToUint32 fetch apiKey stringifies body
  | .get key => g.getKey hashToUint32 fetch apiKey stringifies key
  | .delete key => g.deleteKey hashToUint32 fetch apiKey stringifies key
  | .route key => g.getRoute hashToUint32 key

end Gateway

namespace RoutedRequest

/-- The key a request is routed by; a malformed set has none. -/
def key? : RoutedRequest ν → Option JsString
  | .set body =>
    match readField (orEmpty body) (js "key") with
    | .value (.str key) => if key.length = 0 then none else some key
    | _ => none
  | .get key | .delete key | .route key => some key

/-- Whether the body that is sent on, if any, can be stringified. -/
def stringified : RoutedRequest ν → Bool
  | .set body => stringifies (orEmpty body)
  | _ => true

/-- What a request is answered once it has a node. -/
def answer (nodeUrl : JsString) : RoutedRequest ν → RoutedResponse ν
  | .set body =>
    Gateway.proxy fetch apiKey stringifies nodeUrl (js "/set") .post
      [(js "content-type", js "application/json")] (some (orEmpty body))
  | .get key => Gateway.proxyKey fetch apiKey stringifies (js "/get/") .get key nodeUrl
  | .delete key => Gateway.proxyKey fetch apiKey stringifies (js "/delete/") .delete key nodeUrl
  | .route key => .route key nodeUrl

/-- The response that is due: 400 for a malformed set, 503 without nodes, else the answer of, or
about, the node of the router that the key belongs to. -/
def IsDue (g : Gateway) (req : RoutedRequest ν) (r : RoutedResponse ν) : Prop :=
  match req.key? with
  | none => r = Gateway.badKey
  | some key =>
    if g.router.nodeSet = [] then r = Gateway.noNodes
    else ∃ nodeUrl ∈ g.router.nodeSet, g.nodeFor hashToUint32 key = some nodeUrl ∧
      r = req.answer fetch apiKey stringifies nodeUrl

end RoutedRequest

/-! ## What is sent -/

/-- What the gateway sends for a key that it is asked for at `/name/:key`. -/
def keyRequest (nodeUrl name key : JsString) (method : HttpMethod) : ProxyRequest ν where
  method := method
  url := nodeUrl ++ (js "/" ++ name ++ js "/" ++ key.encodeURIComponent.getD [])
  headers := authHeader apiKey
  body := none

/-- What the gateway sends for the body of a `POST /set`. -/
def bodyRequest (nodeUrl : JsString) (body : Json ν) : ProxyRequest ν where
  method := .post
  url := nodeUrl ++ js "/set"
  headers := [(js "content-type", js "application/json")] ++ authHeader apiKey
  body := some body

/-- Whatever the node at `nodeUrl` answers `sent`, the handler relays it, and nothing else. -/
def Gateway.Sends (g : Gateway) (req : RoutedRequest ν) (nodeUrl : JsString)
    (sent : ProxyRequest ν) : Prop :=
  ∀ fetch : Fetch ν,
    g.routed hashToUint32 fetch apiKey stringifies req = [relay stringifies nodeUrl (fetch sent)]

/-! ## What brings in an empty url -/

/-- The action makes no empty url known. -/
def NamesNodes (_ : Gateway) : GatewayAction ν → Prop
  | .postNodes body => ∀ url, Gateway.bodyUrl body = some url → normalized url ≠ []
  | .postSync body => ∀ nodes, Gateway.bodyNodes (orEmpty body) = some nodes →
    ∀ url ∈ nodes, normalized url ≠ []
  | .receiveSync body => ∀ nodes, Gateway.bodyNodes body = some nodes → ∀ url ∈ nodes, url ≠ []
  | _ => True

instance (g : Gateway) : ∀ a : GatewayAction ν, Decidable (NamesNodes g a)
  | .postNodes body => inferInstanceAs (Decidable (∀ url ∈ Gateway.bodyUrl body,
      normalized url ≠ []))
  | .postSync body => inferInstanceAs (Decidable (∀ nodes ∈ Gateway.bodyNodes (orEmpty body),
      ∀ url ∈ nodes, normalized url ≠ []))
  | .receiveSync body => inferInstanceAs (Decidable (∀ nodes ∈ Gateway.bodyNodes body,
      ∀ url ∈ nodes, url ≠ []))
  | .deleteNodes _ | .checkAll | .checked _ _ => instDecidableTrue

end InkCache
