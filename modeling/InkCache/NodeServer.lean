import InkCache.AccessPredictor
import InkCache.Auth
import InkCache.Dashboard
import InkCache.Gateway
import InkCache.OpDelivery
import InkCache.PrimaryMonitor
import InkCache.RateLimit

/-!
# A node behind its middleware (`src/network/app.ts`)

The stack that a request goes down: the answer to a preflight request, the rate limiter, the check
of the key, the body, and then its route. Which route it takes is what the router makes of its
method and its path. A clock that reads whole milliseconds is the one of the rate limiter, too.
-/

namespace InkCache

open Lib

/-! ## Requests -/

/-- `undecodable` is a path whose parameter is not URI encoded, and `unknown` one of no route. -/
inductive Route where
  | set
  | get (key : JsString)
  /-- `top` is the parameter of the query, where it is given once. -/
  | predict (key : JsString) (top : Option JsString)
  | delete (key : JsString)
  | invalidate
  | keys
  | keyStats
  | snapshot
  | restore
  | flush
  | replicate
  | promote
  | requestVote
  | leader
  | metrics
  | metricsHistory
  | version
  | health
  | undecodable
  | unknown
  deriving DecidableEq

/-- `isPreflight` is an `OPTIONS` request. The paths without authentication are of no other route
than `GET /health`. -/
structure HttpRequest where
  isPreflight : Bool
  path : JsString
  route : Route
  ip : Option JsString
  xApiKey : Option HeaderValue
  authorization : Option HeaderValue
  body : Option RequestBody
  exempt : path ∈ authExemptPaths → route = .health ∨ route = .unknown

namespace HttpRequest

/-- What the check of the key reads. -/
def auth (req : HttpRequest) : AuthRequest where
  path := req.path
  xApiKey := req.xApiKey
  authorization := req.authorization

/-- What the rate limiter reads. -/
def limited (clock : ℤ) (req : HttpRequest) : LimitedRequest where
  path := req.path
  ip := req.ip
  now := clock

/-- The key of the buckets. -/
def client (req : HttpRequest) : JsString := req.ip.getD (js "unknown")

end HttpRequest

/-! ## The state and the answers -/

/-- A row of `GET /metrics/history`. -/
structure MetricsHistoryEntry where
  at_ : ℤ
  snapshot : MetricsSnapshot
  deriving DecidableEq

/-- `HISTORY_CAP` of the metrics -/
def metricsHistoryCap : ℕ := 360

/-- The constants that `app.ts` reads from its environment. -/
structure NodeConfig (ν : Type) where
  nodeId : JsString
  version : JsString
  apiKey : Option JsString
  rateLimit : Option RateLimitOptions
  numberText : NumberText ν
  /-- `Number.isInteger`, with the integer. -/
  toInteger : ν → Option ℤ

/-- `primaryMonitor` is the monitor of the handle, if `server.ts` has set one. -/
structure NodeServer (ν : Type) where
  served : MeteredApp ν
  predictor : AccessPredictor
  history : List MetricsHistoryEntry
  primaryMonitor : Option PrimaryMonitor
  buckets : Buckets

/-- What `GET /health` answers, besides the name of the node and the time of day. -/
structure HealthAnswer where
  role : Role
  uptimeSec : ℚ
  keys : ℕ
  /-- `primaryHealthy` and `primaryConsecutiveFailures` -/
  primary : Option (Bool × ℕ)
  deriving DecidableEq

/-- The part of `GET /metrics` that tells the role. -/
inductive RoleAnswer where
  | primary (replicaCount : ℕ)
  | replica (primaryUrl : Option JsString)
  deriving DecidableEq

inductive NodeResponse (ν : Type) where
  /-- A preflight request is answered by `cors`. -/
  | preflight
  | throttled (retryAfter : ℤ) (error : HttpError)
  | failed (error : HttpError)
  /-- `POST /set`, `DELETE /delete/:key`, `POST /invalidate`, `POST /flush` and `POST /restore` -/
  | write (answer : AppResponse ν)
  | replicated
  | hit (key value : JsString) (ttl : Option ν)
  | miss (key : JsString)
  | predictions (key : JsString) (predictions : List Prediction)
  | keys (keys : List JsString) (count : ℕ)
  | keyStats (keys : List (DetailedKey ν)) (count : ℕ)
  | snapshot (keys : List (SnapshotRow ν))
  | promoted (role : Role) (replicaCount : ℕ)
  | vote (answer : VoteResponse)
  | leader (answer : LeaderResponse)
  | metrics (node : JsString) (role : RoleAnswer) (answer : MetricsAnswer)
  | metricsHistory (samples : List MetricsHistoryEntry)
  | version (version node : JsString)
  | health (node : JsString) (answer : HealthAnswer)

variable {ν : Type} [JsNumber ν]

/-- The status that a request is answered with. -/
def NodeResponse.status : NodeResponse ν → ℕ
  | preflight => 204
  | throttled _ e | failed e => e.status
  | write (.error status _) => status
  | miss _ => 404
  | vote (.badRequest _) | leader (.badRequest _) => 400
  | leader (.staleTerm _) => 409
  | _ => 200

def internalError : HttpError where
  status := 500
  message := js "internal server error"

def notFound : HttpError where
  status := 404
  message := js "not found"

/-- What a route leaves, answers and forwards. -/
structure RouteOutcome (ν : Type) where
  node : NodeServer ν
  response : NodeResponse ν
  forwarded : List (JsString × ReplicationOp ν) := []

/-! ## The routes -/

/-- `/^[1-9]\d*$/` -/
def isPositiveDecimal (s : JsString) : Bool :=
  match s with
  | [] => false
  | u :: us => decide (49 ≤ u ∧ u ≤ 57) && us.all fun u => decide (48 ≤ u ∧ u ≤ 57)

/-- `topN` of `GET /predict/:key` -/
def predictTop (top : Option JsString) : ℕ :=
  match top with
  | some top =>
    if isPositiveDecimal top then min 20 (top.foldl (fun n u => 10 * n + (u.toNat - 48)) 0) else 3
  | none => 3

/-- `term` and the string beside it, as both election routes check them first. -/
def electionBody (toInteger : ν → Option ℤ) (name : JsString) (message : JsString)
    (body : Option (Json ν)) : Except HttpError (ℤ × JsString) :=
  match readField (orEmpty body) (js "term") with
  | .value (.num x) =>
    match toInteger x with
    | none => .error (.badRequest (js "term must be a non-negative integer"))
    | some term =>
      if term < 0 then .error (.badRequest (js "term must be a non-negative integer"))
      else
        match stringField (orEmpty body) name with
        | none => .error (.badRequest message)
        | some s => if s.length = 0 then .error (.badRequest message) else .ok (term, s)
  | _ => .error (.badRequest (js "term must be a non-negative integer"))

/-- The `replicaUrls` of `POST /promote`, none where they are left out. -/
def promoteUrls (body : Option (Json ν)) : Option (List JsString) :=
  match readField (orEmpty body) (js "replicaUrls") with
  | .undefined => some []
  | .value (.arr urls) => Gateway.strings urls
  | _ => none

namespace NodeServer

def leadership (n : NodeServer ν) : Leadership := n.served.app.leadership

def withLeadership (leadership : Leadership) (n : NodeServer ν) : NodeServer ν :=
  { n with served := { n.served with app := { n.served.app with leadership } } }

/-- A request of the store and the metrics. -/
def serve (m : Moment ν) (r : ServedRequest ν) (n : NodeServer ν) : NodeServer ν :=
  { n with served := (n.served.handle m r).1 }

def writeRoute (m : Moment ν) (r : WriteRequest ν) (n : NodeServer ν) : RouteOutcome ν :=
  let answer := n.served.app.write m.now r
  { node := n.serve m (.write r), response := .write answer.2.1, forwarded := answer.2.2 }

def restoreRoute (m : Moment ν) (body : Option (Json ν)) (n : NodeServer ν) : RouteOutcome ν where
  node := n.serve m (.restore body)
  response := .write (n.served.app.postRestore m.now body).2

def getRoute (m : Moment ν) (key : JsString) (n : NodeServer ν) : RouteOutcome ν where
  node := { n.serve m (.get key) with predictor := n.predictor.record key }
  response :=
    match (n.served.app.store.getWithTtl m.now key).2 with
    | none => .miss key
    | some r => .hit key r.value r.ttl

def keysRoute (m : Moment ν) (n : NodeServer ν) : RouteOutcome ν :=
  let node := n.serve m .keys
  { node, response := .keys (n.served.app.store.keys m.now).2 node.served.app.store.size }

def keyStatsRoute (m : Moment ν) (n : NodeServer ν) : RouteOutcome ν :=
  let node := n.serve m .keyStats
  { node, response := .keyStats (n.served.app.store.detailedKeys m.now).2
      node.served.app.store.size }

def snapshotRoute (m : Moment ν) (n : NodeServer ν) : RouteOutcome ν where
  node := n.serve m .snapshot
  response := .snapshot (n.served.app.getSnapshot m.now).2

/-- `POST /internal/replicate`; `none` where a field of the op is not of its declared type. -/
def replicateRoute (m : Moment ν) (body : Option (Json ν)) (n : NodeServer ν) :
    Option (RouteOutcome ν) :=
  match opName body with
  | none => some { node := n, response := .failed malformedOp }
  | some name =>
    (readOp name (orEmpty body)).map fun ops =>
      { node := ops.foldl (fun n op => n.serve m (.replicate op)) n, response := .replicated }

def promoteRoute (body : Option (Json ν)) (n : NodeServer ν) : RouteOutcome ν :=
  match promoteUrls body with
  | none =>
    { node := n, response := .failed (.badRequest (js "replicaUrls must be an array of strings")) }
  | some urls =>
    let r := n.leadership.promoteToPrimary urls
    if r.2 then
      { node := n.withLeadership r.1, response := .promoted r.1.role r.1.replicaUrls.length }
    else
      { node := n
        response := .failed { status := 409, message := js "this node is already a primary" } }

def requestVoteRoute (C : NodeConfig ν) (body : Option (Json ν)) (n : NodeServer ν) :
    RouteOutcome ν :=
  match electionBody C.toInteger (js "candidateId")
    (js "candidateId must be a non-empty string") body with
  | .error e => { node := n, response := .failed e }
  | .ok (term, candidateId) =>
    let r := n.leadership.requestVote term candidateId
    { node := n.withLeadership r.1, response := .vote r.2 }

def leaderRoute (C : NodeConfig ν) (body : Option (Json ν)) (n : NodeServer ν) : RouteOutcome ν :=
  match electionBody C.toInteger (js "primaryUrl")
    (js "primaryUrl must be a non-empty string") body with
  | .error e => { node := n, response := .failed e }
  | .ok (term, primaryUrl) =>
    let r := n.leadership.leader term primaryUrl
    { node := n.withLeadership r.1, response := .leader r.2 }

def roleAnswer (n : NodeServer ν) : RoleAnswer :=
  match n.leadership.role with
  | .primary => .primary n.leadership.replicaUrls.length
  | .replica => .replica n.leadership.primaryUrl

def healthAnswer (clock : ℤ) (n : NodeServer ν) : HealthAnswer where
  role := n.leadership.role
  uptimeSec := n.served.metrics.uptimeSec clock
  keys := n.served.app.store.size
  primary :=
    if n.leadership.role = .replica then n.primaryMonitor.map fun m => (m.healthy, m.failures)
    else none

/-- The route of a request that has come down the stack. -/
def dispatch (C : NodeConfig ν) (m : Moment ν) (body : Option (Json ν)) (n : NodeServer ν) :
    Route → Option (RouteOutcome ν)
  | .set => some (n.writeRoute m (.set body))
  | .get key => some (n.getRoute m key)
  | .predict key top =>
    some { node := n, response := .predictions key (n.predictor.predict key (predictTop top)) }
  | .delete key => some (n.writeRoute m (.delete key))
  | .invalidate => some (n.writeRoute m (.invalidate body))
  | .keys => some (n.keysRoute m)
  | .keyStats => some (n.keyStatsRoute m)
  | .snapshot => some (n.snapshotRoute m)
  | .restore => some (n.restoreRoute m body)
  | .flush => some (n.writeRoute m .flush)
  | .replicate => n.replicateRoute m body
  | .promote => some (n.promoteRoute body)
  | .requestVote => some (n.requestVoteRoute C body)
  | .leader => some (n.leaderRoute C body)
  | .metrics =>
    some { node := n, response := .metrics C.nodeId n.roleAnswer (n.served.getMetrics m.clock) }
  | .metricsHistory => some { node := n, response := .metricsHistory n.history }
  | .version => some { node := n, response := .version C.version C.nodeId }
  | .health => some { node := n, response := .health C.nodeId (n.healthAnswer m.clock) }
  | .undecodable => some { node := n, response := .failed internalError }
  | .unknown => some { node := n, response := .failed notFound }

/-! ## The stack -/

/-- The rate limiter, where there is one. -/
def limit (C : NodeConfig ν) (clock : ℤ) (req : HttpRequest) (n : NodeServer ν) :
    NodeServer ν × RateLimitOutcome :=
  match C.rateLimit with
  | none => (n, .next)
  | some o =>
    let r := o.rateLimiter (req.limited clock) n.buckets
    ({ n with buckets := r.1 }, r.2)

/-- From the check of the key on. -/
def authorize (C : NodeConfig ν) (m : Moment ν) (req : HttpRequest) (n : NodeServer ν) :
    Option (RouteOutcome ν) :=
  match authMiddleware C.apiKey req.auth with
  | .reject e => some { node := n, response := .failed e }
  | .next =>
    match expressJson C.numberText req.body with
    | .error e => some { node := n, response := .failed e }
    | .ok body => n.dispatch C m body req.route

def receive (C : NodeConfig ν) (m : Moment ν) (req : HttpRequest) (n : NodeServer ν) :
    Option (RouteOutcome ν) :=
  if req.isPreflight then some { node := n, response := .preflight }
  else
    match n.limit C m.clock req with
    | (n, .reject retryAfter e) => some { node := n, response := .throttled retryAfter e }
    | (n, .next) => n.authorize C m req

end NodeServer

/-! ## Runs -/

inductive NodeAction (ν : Type) where
  | request (m : Moment ν) (req : HttpRequest)
  /-- An election is won. -/
  | lead (leadership : Leadership)
  /-- The rows of a snapshot are loaded, from a file or from the primary. -/
  | load (now : ν) (rows : List (SnapshotRow ν))
  /-- The timer of the store fires. -/
  | sweep (now : ν)
  /-- The timer of the metrics fires. -/
  | sample (clock : ℤ)
  /-- What the primary's monitor reports from now on. -/
  | monitored (monitor : PrimaryMonitor)

/-- A request that was answered. -/
structure Answered (ν : Type) where
  moment : Moment ν
  request : HttpRequest
  response : NodeResponse ν
  forwarded : List (JsString × ReplicationOp ν)

/-- A request was answered, a snapshot loaded, or a sample of the metrics taken. -/
inductive NodeEvent (ν : Type) where
  | answered (e : Answered ν)
  | loaded (now : ν) (rows : List (SnapshotRow ν))
  | sampled (clock : ℤ)

/-- A request of one of the clients was answered. -/
def NodeEvent.isOf (clients : Finset JsString) : NodeEvent ν → Bool
  | answered e => decide (e.request.client ∈ clients)
  | loaded _ _ | sampled _ => false

namespace NodeServer

/-- `startHistory`'s callback. -/
def sample (clock : ℤ) (n : NodeServer ν) : NodeServer ν :=
  { n with history := n.history.rtake (metricsHistoryCap - 1) ++
      [{ at_ := clock, snapshot := n.served.metrics.snapshot clock }] }

def step (C : NodeConfig ν) (n : NodeServer ν) :
    NodeAction ν → Option (NodeServer ν × List (NodeEvent ν))
  | .request m req =>
    (n.receive C m req).map fun r =>
      (r.node, [.answered
        { moment := m, request := req, response := r.response, forwarded := r.forwarded }])
  | .lead leadership => some (n.withLeadership leadership, [])
  | .load now rows =>
    some ({ n with served := n.served.withStore (loadRows now n.served.app.store rows) },
      [.loaded now rows])
  | .sweep now =>
    some ({ n with served := n.served.withStore (n.served.app.store.sweep now).1 }, [])
  | .sample clock => some (n.sample clock, [.sampled clock])
  | .monitored monitor => some ({ n with primaryMonitor := some monitor }, [])

/-- A node that has just started. -/
def start (opts : CacheStoreOptions) (maxKeyLength : ℕ) (leadership : Leadership) (clock : ℤ) :
    NodeServer ν where
  served := .start opts maxKeyLength leadership clock
  predictor := .new
  history := []
  primaryMonitor := none
  buckets := .empty

end NodeServer

/-! ## What was acknowledged -/

/-- An answer that is no refusal; a `GET` of a key that is not there is none either. -/
def NodeResponse.isServed : NodeResponse ν → Bool
  | preflight | throttled _ _ | failed _ => false
  | write answer => answer.isOk
  | _ => true

def ReplicationOp.asks : ReplicationOp ν → StoreOp ν
  | .set key value ttl => .set key value ttl
  | .delete key => .delete key
  | .invalidate pre => .deleteByPrefix pre
  | .flush => .clear

/-- What a write asks of the store, where it is acknowledged. -/
def WriteRequest.asks (maxKeyLength : ℕ) (now : ν) : WriteRequest ν → List (StoreOp ν)
  | set body =>
    ((validateEntry maxKeyLength now (some (orEmpty body))).toOption.map fun e =>
      StoreOp.set e.key e.value e.ttl).toList
  | delete key => [.delete key]
  | invalidate body =>
    ((stringField (orEmpty body) (js "prefix")).map StoreOp.deleteByPrefix).toList
  | flush => [.clear]

/-- What a request asks of the store, as read off the request alone. -/
def HttpRequest.asks (T : NumberText ν) (maxKeyLength : ℕ) (now : ν) (req : HttpRequest) :
    List (StoreOp ν) :=
  match expressJson T req.body with
  | .error _ => []
  | .ok body =>
    match req.route with
    | .set => WriteRequest.asks maxKeyLength now (.set body)
    | .get key => [.getWithTtl key]
    | .delete key => WriteRequest.asks maxKeyLength now (.delete key)
    | .invalidate => WriteRequest.asks maxKeyLength now (.invalidate body)
    | .keys => [.keys]
    | .keyStats => [.detailedKeys]
    | .snapshot => [.exportEntries]
    | .restore =>
      match readField (orEmpty body) (js "keys") with
      | .value (.arr keys) =>
        ((App.validateAll maxKeyLength now 0 keys).toOption.getD []).map fun e =>
          .set e.key e.value e.ttl
      | _ => []
    | .flush => WriteRequest.asks maxKeyLength now .flush
    | .replicate =>
      ((opName body).bind fun name => readOp name (orEmpty body)).getD [] |>.map
        ReplicationOp.asks
    | _ => []

/-- The clock reading and the operations of an event that was acknowledged. -/
def NodeEvent.operations (T : NumberText ν) (maxKeyLength : ℕ) :
    NodeEvent ν → List (ν × StoreOp ν)
  | answered e =>
    if e.response.isServed then
      (e.request.asks T maxKeyLength e.moment.now).map (e.moment.now, ·)
    else []
  | loaded now rows => rows.map fun row => (now, .set row.key row.value row.ttl)
  | sampled _ => []

/-- What an operation has to say of the keys that are stored. -/
def StoreOp.acknowledgment (now : ν) : StoreOp ν → Option (StoreEvent ν)
  | .set key value t => some (.set key value (deadline now t))
  | .delete key => some (.delete key)
  | .deleteByPrefix pre => some (.deleteByPrefix pre)
  | .clear => some .clear
  | _ => none

/-- All that was acknowledged, in order. -/
def acknowledged (T : NumberText ν) (maxKeyLength : ℕ) (log : List (NodeEvent ν)) :
    List (StoreEvent ν) :=
  (log.flatMap (NodeEvent.operations T maxKeyLength)).filterMap fun x => x.2.acknowledgment x.1

/-- The call of `metrics.record` that goes with an answer. -/
def Answered.recordCall (e : Answered ν) : Option RecordCall :=
  match e.response with
  | .hit _ _ _ => some ⟨e.moment.clock, .get, e.moment.latencyUs, some true⟩
  | .miss _ => some ⟨e.moment.clock, .get, e.moment.latencyUs, some false⟩
  | .write (.set _ _) => some ⟨e.moment.clock, .set, e.moment.latencyUs, none⟩
  | .write (.deleted _ _) => some ⟨e.moment.clock, .delete, e.moment.latencyUs, none⟩
  | _ => none

/-- The key that the predictor hears of. -/
def Answered.gotKey (e : Answered ν) : Option JsString :=
  match e.response with
  | .hit key _ _ | .miss key => some key
  | _ => none

/-- The answers that the counters of the metrics are about. -/
def NodeResponse.isHit : NodeResponse ν → Bool
  | hit _ _ _ => true
  | _ => false

def NodeResponse.isMiss : NodeResponse ν → Bool
  | miss _ => true
  | _ => false

def NodeResponse.isSet : NodeResponse ν → Bool
  | write (.set _ _) => true
  | _ => false

def NodeResponse.isDeletion : NodeResponse ν → Bool
  | write (.deleted _ _) => true
  | _ => false

def NodeEvent.exchange? : NodeEvent ν → Option (Answered ν)
  | answered e => some e
  | loaded _ _ | sampled _ => none

def answers (log : List (NodeEvent ν)) : List (NodeResponse ν) :=
  (log.filterMap NodeEvent.exchange?).map Answered.response

def NodeEvent.sampledAt? : NodeEvent ν → Option ℤ
  | sampled clock => some clock
  | answered _ | loaded _ _ => none

/-- When each sample was taken, and what had happened by then. -/
def samples (log : List (NodeEvent ν)) : List (ℤ × List (NodeEvent ν)) :=
  log.inits.filterMap fun before =>
    (before.getLast?.bind NodeEvent.sampledAt?).map fun clock => (clock, before)

/-- The counters of a row. -/
structure RowCounts where
  at_ : ℤ
  hits : ℕ
  misses : ℕ
  sets : ℕ
  deletes : ℕ
  deriving DecidableEq

def MetricsHistoryEntry.counts (row : MetricsHistoryEntry) : RowCounts where
  at_ := row.at_
  hits := row.snapshot.hits
  misses := row.snapshot.misses
  sets := row.snapshot.sets
  deletes := row.snapshot.deletes

/-- The row of a sample, by what had been answered. -/
def countsOf (clock : ℤ) (log : List (NodeEvent ν)) : RowCounts where
  at_ := clock
  hits := (answers log).countP (·.isHit)
  misses := (answers log).countP (·.isMiss)
  sets := (answers log).countP (·.isSet)
  deletes := (answers log).countP (·.isDeletion)

/-! ## A clock that does not run backwards -/

structure TimedNode (ν : Type) where
  clock : ν
  node : NodeServer ν

/-- The reading of the store's clock in an action that reads it. -/
def NodeAction.now : NodeAction ν → Option ν
  | request m _ => some m.now
  | load now _ | sweep now => some now
  | lead _ | sample _ | monitored _ => none

def timedNodeStep (C : NodeConfig ν) (t : TimedNode ν) (a : NodeAction ν) :
    Option (TimedNode ν × List (NodeEvent ν)) :=
  (t.node.step C a).map fun r => (⟨a.now.getD t.clock, r.1⟩, r.2)

def NodeClockOk (t : TimedNode ν) (a : NodeAction ν) : Prop := ∀ now ∈ a.now, t.clock ≤ now

instance (t : TimedNode ν) (a : NodeAction ν) : Decidable (NodeClockOk t a) :=
  inferInstanceAs (Decidable (∀ now ∈ a.now, t.clock ≤ now))

/-! ## Intruders -/

/-- The header that is read presents the key. -/
def AuthRequest.presents (key : JsString) (req : AuthRequest) : Bool :=
  req.presentedKey.any fun presented => decide (presented ≠ []) && safeEqual presented key

/-- The clients are among those that there is room for, and no intruder presents the key. -/
def Uncredentialed (key : JsString) (clients intruders : Finset JsString) (_ : NodeServer ν) :
    NodeAction ν → Prop
  | .request _ req =>
    req.client ∈ clients ∧ (req.client ∈ intruders → req.auth.presents key = false)
  | _ => True

instance (key : JsString) (clients intruders : Finset JsString) (n : NodeServer ν) :
    ∀ a, Decidable (Uncredentialed key clients intruders n a)
  | .request _ _ => instDecidableAnd
  | .lead _ | .load _ _ | .sweep _ | .sample _ | .monitored _ => instDecidableTrue

/-- A request of one of the clients. -/
def NodeAction.isOf (clients : Finset JsString) : NodeAction ν → Bool
  | request _ req => decide (req.client ∈ clients)
  | _ => false

/-! ## Throttled requests -/

/-- Requests that the rate limiter counts. -/
def HttpRequest.isCounted (req : HttpRequest) : Bool :=
  !req.isPreflight && decide (req.path ∉ exemptPaths)

def NodeResponse.isThrottled : NodeResponse ν → Bool
  | throttled _ _ => true
  | _ => false

def NodeEvent.clock? : NodeEvent ν → Option ℤ
  | answered e => some e.moment.clock
  | loaded _ _ | sampled _ => none

/-- When a client's request was counted and let through. -/
def NodeEvent.admittedAt (client : JsString) : NodeEvent ν → Option ℤ
  | answered e =>
    if e.request.client = client ∧ e.request.isCounted ∧ !e.response.isThrottled then
      some e.moment.clock
    else none
  | loaded _ _ | sampled _ => none

/-- The readings of the clock at the requests that were answered. -/
def clocks (log : List (NodeEvent ν)) : List ℤ := log.filterMap NodeEvent.clock?

/-- When the client's requests were let through. -/
def admissions (client : JsString) (log : List (NodeEvent ν)) : List ℤ :=
  log.filterMap (NodeEvent.admittedAt client)

/-- The client sends no request that is counted. -/
def Waits (client : JsString) (_ : NodeServer ν) : NodeAction ν → Prop
  | .request _ req => req.client = client → req.isCounted = false
  | _ => True

instance (client : JsString) (n : NodeServer ν) : ∀ a, Decidable (Waits client n a)
  | .request _ req => inferInstanceAs (Decidable (req.client = client → req.isCounted = false))
  | .lead _ | .load _ _ | .sweep _ | .sample _ | .monitored _ => instDecidableTrue

end InkCache
